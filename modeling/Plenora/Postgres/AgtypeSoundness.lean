import Plenora.Postgres.AgtypeGrammar

/-!
# What the parser of `agtype` gives

A value that the parser gives is read by its rules from the text it went over, and where it
panics or overflows, the text breaks it: a character outside ASCII in an atom, or one list or
object more than the stack has room for.

    parseValue fromStr n text = .done v rest →
      text = used ++ rest ∧ Reads codeRules n used (.value v)                  (parseValue_reads)
    parseValue fromStr n text ∈ {.panics, .overflows} → Breaks n text .value   (parseValue_broken)
    text is ASCII → its brackets are fewer than stack →
      parseAgtype fromStr stack text = .ok v ∨ .error (mappingError message)   (parseAgtype_ascii)
-/

namespace Plenora.Postgres.Agtype

open Plenora.Core Plenora.Lib Plenora.Lib.Json

/-! ## What the parser gives reads -/

theorem isSpace_append {s t : Text} (hs : IsSpace s) (ht : IsSpace t) : IsSpace (s ++ t) := by
  intro c hc
  rcases List.mem_append.1 hc with h | h
  · exact hs c h
  · exact ht c h

theorem exists_space (text : Text) :
    ∃ before, IsSpace before ∧ text = before ++ skipWhitespace text := by
  refine ⟨text.takeWhile isAsciiWhitespace, ?_, ?_⟩
  · intro c hc
    exact List.mem_takeWhile_imp hc
  · exact List.takeWhile_append_dropWhile.symm

theorem Step.bind_eq_done {α β : Type} {s : Step α} {f : α → Text → Step β} {b : β} {rest : Text}
    (h : s.bind f = .done b rest) : ∃ a mid, s = .done a mid ∧ f a mid = .done b rest := by
  cases s with
  | done a mid => exact ⟨a, mid, rfl, h⟩
  | refused message => cases h
  | panics => cases h
  | overflows => cases h

theorem Step.map_eq_done {α β : Type} {s : Step α} {f : α → β} {b : β} {rest : Text}
    (h : s.map f = .done b rest) : ∃ a, s = .done a rest ∧ f a = b := by
  obtain ⟨a, mid, hs, heq⟩ := Step.bind_eq_done h
  cases heq
  exact ⟨a, hs, rfl⟩

/-! ### Space around a value -/

theorem Reads.space_value {rules : Rules} {n : Nat} {before text : Text} {v : GraphValue}
    (hspace : IsSpace before) (h : Reads rules n text (.value v)) :
    Reads rules n (before ++ text) (.value v) := by
  cases h with
  | plain hbefore hcore hafter =>
    rw [← List.append_assoc]
    exact .plain (isSpace_append hspace hbefore) hcore hafter
  | numeral hbefore hnumeral hafter =>
    rw [← List.append_assoc]
    exact .numeral (isSpace_append hspace hbefore) hnumeral hafter
  | annotated hbefore hcore hafter hsuffix hannotated =>
    rw [← List.append_assoc]
    exact .annotated (isSpace_append hspace hbefore) hcore hafter hsuffix hannotated

theorem Reads.space_items {rules : Rules} {n : Nat} {before text : Text} {vs : List GraphValue}
    (hspace : IsSpace before) (h : Reads rules n text (.items vs)) :
    Reads rules n (before ++ text) (.items vs) := by
  cases h with
  | item hvalue hafter =>
    rw [← List.append_assoc]
    exact .item (hvalue.space_value hspace) hafter
  | items hvalue hafter hmore =>
    rw [← List.append_assoc]
    exact .items (hvalue.space_value hspace) hafter hmore

theorem Reads.space_members {rules : Rules} {n : Nat} {before text : Text} {members : Fields}
    (hspace : IsSpace before) (h : Reads rules n text (.members members)) :
    Reads rules n (before ++ text) (.members members) := by
  cases h with
  | member hbefore hpieces hbetween hvalue hafter =>
    rw [← List.append_assoc]
    exact .member (isSpace_append hspace hbefore) hpieces hbetween hvalue hafter
  | members hbefore hpieces hbetween hvalue hafter hmore =>
    rw [← List.append_assoc]
    exact .members (isSpace_append hspace hbefore) hpieces hbetween hvalue hafter hmore

/-! ### Atoms and strings -/

theorem scanAtom_sound {text token rest : Text} (h : scanAtom text = .done token rest) :
    text = token ++ rest := by
  induction text generalizing token with
  | nil =>
    cases h
    rfl
  | cons c text ih =>
    rw [scanAtom] at h
    split at h
    next =>
      cases h
      rfl
    next =>
      split at h
      next =>
        obtain ⟨token', hscan, rfl⟩ := Step.map_eq_done h
        rw [ih hscan]
        rfl
      next => cases h

theorem parseAtom_sound {text rest : Text} {v : GraphValue} (h : parseAtom text = .done v rest) :
    ∃ token, text = token ++ rest ∧ atomValue token = some v := by
  obtain ⟨token, mid, hscan, h⟩ := Step.bind_eq_done h
  split at h
  next value hvalue =>
    cases h
    exact ⟨token, scanAtom_sound hscan, hvalue⟩
  next => cases h

theorem parseString_sound {fromStr : Text → Option Text} (hread : ReadsLiterals fromStr)
    {text s rest : Text} (h : parseString fromStr text = .done s rest) :
    ∃ pieces, (∀ p ∈ pieces, Piece.WellFormed p) ∧ '"' :: text = literal pieces ++ rest ∧
      s = decode pieces := by
  unfold parseString at h
  split at h
  next => cases h
  next body end_ hend =>
    split at h
    next s' hs =>
      cases h
      obtain ⟨pieces, hpieces, rfl, rfl⟩ := (hread _ _).1 hs
      refine ⟨pieces, hpieces, ?_, rfl⟩
      rw [literalEnd_sound hend, literal]
      simp
    next => cases h

/-! ### Annotations -/

theorem isWhiteSpace_of_isAsciiWhitespace {c : Char} (h : isAsciiWhitespace c) :
    Graph.isWhiteSpace c := by
  unfold isAsciiWhitespace at h
  simp only [Bool.or_eq_true, decide_eq_true_eq] at h
  rcases h with (((rfl | rfl) | rfl) | rfl) | rfl <;> decide

/-- Spaces after a text are trimmed with it. -/
theorem trim_append (text : Text) {after : Text} (hafter : IsSpace after) :
    trim (text ++ after) = trim text := by
  have hall : ∀ c ∈ after, Graph.isWhiteSpace c = true := fun c hc =>
    isWhiteSpace_of_isAsciiWhitespace (hafter c hc)
  have hright (s : Text) : (s ++ after).rdropWhile Graph.isWhiteSpace =
      s.rdropWhile Graph.isWhiteSpace := by
    unfold List.rdropWhile
    rw [List.reverse_append, List.dropWhile_append_of_pos]
    intro c hc
    exact hall c (List.mem_reverse.1 hc)
  unfold trim
  rw [List.dropWhile_append]
  split
  next hempty =>
    rw [List.isEmpty_iff.1 hempty, List.dropWhile_eq_nil_iff.2 hall]
  next => rw [hright]

theorem annotate_append (suffix text : Text) {after : Text} (hafter : IsSpace after)
    (v : GraphValue) : annotate suffix (text ++ after) v = annotate suffix text v := by
  unfold annotate
  rw [trim_append text hafter]

/-- The text before an annotation, cut at it. -/
theorem take_before (text after suffixStart : Text) :
    (text ++ (after ++ suffixStart)).take
      ((text ++ (after ++ suffixStart)).length - suffixStart.length) = text ++ after := by
  rw [← List.append_assoc, List.length_append, Nat.add_sub_cancel, List.take_left]

theorem parseAnnotation_sound {text after suffixStart rest : Text} {v w : GraphValue}
    (hafter : IsSpace after)
    (h : parseAnnotation (text ++ (after ++ suffixStart)) v suffixStart = .done w rest) :
    (w = v ∧ rest = suffixStart) ∨
      ∃ suffix, suffixStart = ':' :: ':' :: suffix ++ rest ∧ (∀ c ∈ suffix, c.isAlpha) ∧
        annotate suffix text v = .ok w := by
  unfold parseAnnotation at h
  split at h
  next more =>
    rw [take_before, annotate_append _ _ hafter] at h
    split at h
    next value hvalue =>
      cases h
      refine .inr ⟨more.takeWhile Char.isAlpha, ?_, ?_, hvalue⟩
      · rw [List.cons_append, List.cons_append, List.takeWhile_append_dropWhile]
      · intro c hc
        exact List.mem_takeWhile_imp hc
    next => cases h
  next =>
    cases h
    exact .inl ⟨rfl, rfl⟩

/-! ### Lists and objects -/

/-- What a call gives reads as a value, with at most `n` values one inside the other. -/
def Gives (n : Nat) (call : Text → Step GraphValue) : Prop :=
  ∀ text v rest, call text = .done v rest →
    ∃ used, text = used ++ rest ∧ Reads codeRules n used (.value v)

theorem parseItems_sound {n : Nat} {inner : Text → Step GraphValue} (hinner : Gives n inner)
    {fuel : Nat} {values vs : List GraphValue} {text rest : Text}
    (h : parseItems inner fuel values text = .done vs rest) :
    ∃ used more, text = used ++ ']' :: rest ∧ vs = values ++ more ∧
      Reads codeRules n used (.items more) := by
  induction fuel generalizing values text with
  | zero => cases h
  | succ fuel ih =>
    obtain ⟨v, mid, hv, hnext⟩ := Step.bind_eq_done h
    obtain ⟨used, rfl, hused⟩ := hinner _ _ _ hv
    obtain ⟨after, hafter, hmid⟩ := exists_space mid
    split at hnext
    next end_ hskip =>
      cases hnext
      refine ⟨used ++ after, [v], ?_, rfl, .item hused hafter⟩
      rw [hmid, hskip, List.append_assoc]
    next more hskip =>
      obtain ⟨rest', vs', rfl, rfl, hmore⟩ := ih hnext
      refine ⟨used ++ (after ++ ',' :: rest'), v :: vs', ?_, ?_, .items hused hafter hmore⟩
      · rw [hmid, hskip]
        simp
      · rw [List.append_assoc]
        rfl
    next => cases hnext

theorem parseList_sound {n : Nat} {inner : Text → Step GraphValue} (hinner : Gives n inner)
    {text rest : Text} {vs : List GraphValue} (h : parseList inner text = .done vs rest) :
    ∃ used, '[' :: text = used ++ rest ∧ Reads codeRules n used (.core (.list vs)) := by
  obtain ⟨before, hbefore, htext⟩ := exists_space text
  unfold parseList at h
  split at h
  next end_ hskip =>
    cases h
    refine ⟨_, ?_, .emptyList hbefore⟩
    rw [htext, hskip]
    simp
  next =>
    obtain ⟨used, more, hused, rfl, hitems⟩ := parseItems_sound hinner h
    refine ⟨_, ?_, .list (hitems.space_items hbefore)⟩
    rw [htext, hused]
    simp

theorem parseMembers_sound {fromStr : Text → Option Text} (hread : ReadsLiterals fromStr) {n : Nat}
    {inner : Text → Step GraphValue} (hinner : Gives n inner) {fuel : Nat} {values fields : Fields}
    {text rest : Text} (h : parseMembers fromStr inner fuel values text = .done fields rest) :
    ∃ used members, text = used ++ '}' :: rest ∧ fields = insertAll values members ∧
      Reads codeRules n used (.members members) := by
  induction fuel generalizing values text with
  | zero => cases h
  | succ fuel ih =>
    obtain ⟨before, hbefore, htext⟩ := exists_space text
    rw [parseMembers] at h
    split at h
    next quoted hquoted =>
      obtain ⟨key, mid, hkey, h⟩ := Step.bind_eq_done h
      obtain ⟨pieces, hpieces, hliteral, rfl⟩ := parseString_sound hread hkey
      obtain ⟨between, hbetween, hmid⟩ := exists_space mid
      split at h
      next inside hinside =>
        obtain ⟨v, mid', hv, hnext⟩ := Step.bind_eq_done h
        obtain ⟨used, rfl, hused⟩ := hinner _ _ _ hv
        obtain ⟨after, hafter, hmid'⟩ := exists_space mid'
        rw [htext, hquoted, hliteral, hmid, hinside, hmid']
        split at hnext
        next end_ hskip =>
          cases hnext
          refine ⟨_, [(decode pieces, v)], ?_, rfl,
            .member hbefore hpieces hbetween hused hafter⟩
          rw [hskip]
          simp
        next more hskip =>
          obtain ⟨rest', members, rfl, rfl, hmore⟩ := ih hnext
          refine ⟨_, (decode pieces, v) :: members, ?_, rfl,
            .members hbefore hpieces hbetween hused hafter hmore⟩
          rw [hskip]
          simp
        next => cases hnext
      next => cases h
    next => cases h

theorem parseMap_sound {fromStr : Text → Option Text} (hread : ReadsLiterals fromStr) {n : Nat}
    {inner : Text → Step GraphValue} (hinner : Gives n inner) {text rest : Text} {fields : Fields}
    (h : parseMap fromStr inner text = .done fields rest) :
    ∃ used, '{' :: text = used ++ rest ∧ Reads codeRules n used (.core (.map fields)) := by
  obtain ⟨before, hbefore, htext⟩ := exists_space text
  unfold parseMap at h
  split at h
  next end_ hskip =>
    cases h
    refine ⟨_, ?_, .emptyMap hbefore⟩
    rw [htext, hskip]
    simp
  next =>
    obtain ⟨used, members, hused, hfields, hmembers⟩ := parseMembers_sound hread hinner h
    refine ⟨_, ?_, .map (hmembers.space_members hbefore) hfields⟩
    rw [htext, hused]
    simp

/-! ### Values -/

theorem parseCore_sound {fromStr : Text → Option Text} (hread : ReadsLiterals fromStr) {n : Nat}
    {inner : Text → Step GraphValue} (hinner : Gives n inner) {text rest : Text} {v : GraphValue}
    (h : parseCore fromStr inner text = .done v rest) :
    ∃ used, text = used ++ rest ∧ Reads codeRules n used (.core v) := by
  cases text with
  | nil => cases h
  | cons c text =>
    rw [parseCore] at h
    split at h
    next hquote =>
      obtain ⟨s, hs, rfl⟩ := Step.map_eq_done h
      obtain ⟨pieces, hpieces, hliteral, rfl⟩ := parseString_sound hread hs
      exact ⟨literal pieces, hquote ▸ hliteral, .string hpieces⟩
    next =>
    split at h
    next hbrace =>
      obtain ⟨fields, hfields, rfl⟩ := Step.map_eq_done h
      exact hbrace ▸ parseMap_sound hread hinner hfields
    next =>
    split at h
    next hbracket =>
      obtain ⟨items, hitems, rfl⟩ := Step.map_eq_done h
      exact hbracket ▸ parseList_sound hinner hitems
    next =>
      obtain ⟨token, htoken, hvalue⟩ := parseAtom_sound h
      exact ⟨token, htoken, .atom hvalue⟩

/-- **What the parser gives of a text reads under its rules**, with no more values one inside the
other than the stack has room for. -/
theorem parseValue_reads {fromStr : Text → Option Text} (hread : ReadsLiterals fromStr)
    (stack : Nat) : Gives stack (parseValue fromStr stack) := by
  induction stack with
  | zero =>
    intro text v rest h
    cases h
  | succ stack ih =>
    intro text w rest h
    obtain ⟨before, hbefore, htext⟩ := exists_space text
    obtain ⟨v, mid, hcore, h⟩ := Step.bind_eq_done h
    obtain ⟨used, hused, hreads⟩ := parseCore_sound hread ih hcore
    obtain ⟨after, hafter, hmid⟩ := exists_space mid
    have hstart : skipWhitespace text = used ++ (after ++ skipWhitespace mid) := by
      rw [← hmid, hused]
    rw [hstart] at h
    rcases parseAnnotation_sound hafter h with ⟨rfl, rfl⟩ | ⟨suffix, hsuffix, halpha, hannotate⟩
    · refine ⟨_, ?_, .plain hbefore hreads hafter⟩
      rw [htext, hstart]
      simp
    · refine ⟨_, ?_, .annotated hbefore hreads hafter halpha hannotate⟩
      rw [htext, hstart, hsuffix]
      simp

/-- A cell that is accepted is one value, with spaces after it at most, within the limit. -/
theorem parseAgtype_reads {fromStr : Text → Option Text} (hread : ReadsLiterals fromStr)
    {stack : Nat} {text : Text} {v : GraphValue} (h : parseAgtype fromStr stack text = .ok v) :
    byteLength text ≤ maxAgtypeCellBytes ∧
      ∃ used after, text = used ++ after ∧ Reads codeRules stack used (.value v) ∧
        IsSpace after := by
  unfold parseAgtype at h
  split at h
  next => cases h
  next hlength =>
    refine ⟨Nat.le_of_not_lt hlength, ?_⟩
    split at h
    next value rest hvalue =>
      split at h
      next hrest =>
        cases h
        obtain ⟨used, hused, hreads⟩ := parseValue_reads hread stack _ _ _ hvalue
        refine ⟨used, rest, hused, hreads, ?_⟩
        obtain ⟨spaces, hspaces, hsplit⟩ := exists_space rest
        rw [hrest, List.append_nil] at hsplit
        rw [hsplit]
        exact hspaces
      next => cases h
    next => cases h
    next => cases h
    next => cases h

/-- A number with its annotation, and an object whose key and string hold escapes. -/
def nested : Text := "[1.50::numeric, \x7b\"n\\u00e9\": [\"a\\n\"]\x7d]".toList

theorem parseAgtype_reads_nested :
    byteLength nested ≤ maxAgtypeCellBytes ∧ ∃ used after, nested = used ++ after ∧
      Reads codeRules 4 used (.value (.list [.numeric "1.50".toList,
        .map [("né".toList, .list [.string "a\n".toList])]])) ∧ IsSpace after := by
  have hparse : parseAgtype fromStr 4 nested = .ok (.list [.numeric "1.50".toList,
      .map [("né".toList, .list [.string "a\n".toList])]]) := by
    rw [parseAgtype, if_neg (by decide +kernel)]
    rfl
  exact parseAgtype_reads fromStr_spec hparse

/-! ## Where the parser breaks, it breaks as described -/

/-- Neither a value nor a refusal. -/
def Step.isBroken {α : Type} : Step α → Bool
  | .done _ _ => false
  | .refused _ => false
  | .panics => true
  | .overflows => true

theorem Step.isBroken_bind {α β : Type} {s : Step α} {f : α → Text → Step β}
    (h : (s.bind f).isBroken) : s.isBroken ∨ ∃ a rest, s = .done a rest ∧ (f a rest).isBroken := by
  cases s with
  | done a rest => exact .inr ⟨a, rest, rfl, h⟩
  | refused message => cases h
  | panics => exact .inl rfl
  | overflows => exact .inl rfl

theorem Step.isBroken_map {α β : Type} {s : Step α} {f : α → β} (h : (s.map f).isBroken) :
    s.isBroken := by
  rcases Step.isBroken_bind h with h | ⟨a, rest, -, h⟩
  · exact h
  · cases h

theorem Breaks.space_value {n : Nat} {before text : Text} (hspace : IsSpace before)
    (h : Breaks n text .value) : Breaks n (before ++ text) .value := by
  cases h with
  | deep => exact .deep
  | atom hbefore htoken hc hopens =>
    rw [← List.append_assoc]
    exact .atom (isSpace_append hspace hbefore) htoken hc hopens
  | list hbefore hopen hitems =>
    rw [← List.append_assoc]
    exact .list (isSpace_append hspace hbefore) hopen hitems
  | map hbefore hmembers =>
    rw [← List.append_assoc]
    exact .map (isSpace_append hspace hbefore) hmembers

theorem Breaks.space_items {n : Nat} {before text : Text} (hspace : IsSpace before)
    (h : Breaks n text .items) : Breaks n (before ++ text) .items := by
  cases h with
  | item hvalue => exact .item (hvalue.space_value hspace)
  | items hvalue hafter hmore =>
    rw [← List.append_assoc]
    exact .items (hvalue.space_value hspace) hafter hmore

theorem Breaks.space_members {n : Nat} {before text : Text} (hspace : IsSpace before)
    (h : Breaks n text .members) : Breaks n (before ++ text) .members := by
  cases h with
  | member hbefore hpieces hbetween hvalue =>
    rw [← List.append_assoc]
    exact .member (isSpace_append hspace hbefore) hpieces hbetween hvalue
  | members hbefore hpieces hbetween hvalue hafter hmore =>
    rw [← List.append_assoc]
    exact .members (isSpace_append hspace hbefore) hpieces hbetween hvalue hafter hmore

theorem scanAtom_broken {text : Text} (h : (scanAtom text).isBroken) :
    ∃ token c rest, text = token ++ c :: rest ∧ InAtom token ∧ isAscii c = false := by
  induction text with
  | nil => cases h
  | cons c text ih =>
    rw [scanAtom] at h
    split at h
    next => cases h
    next hends =>
      rw [not_or, Bool.not_eq_true] at hends
      split at h
      next hascii =>
        obtain ⟨token, d, rest, rfl, ⟨htoken, hcolons⟩, hd⟩ := ih (Step.isBroken_map h)
        refine ⟨c :: token, d, rest, rfl, ⟨?_, ?_⟩, hd⟩
        · exact List.forall_mem_cons.2 ⟨⟨hends.1, hascii⟩, htoken⟩
        · rw [List.infix_cons_iff, not_or]
          refine ⟨fun hprefix => hends.2 ?_, hcolons⟩
          exact hprefix.trans (List.prefix_append (c :: token) (d :: rest))
      next hascii =>
        refine ⟨[], c, text, rfl, ⟨?_, ?_⟩, by rwa [Bool.not_eq_true] at hascii⟩
        · intro d hd
          exact absurd hd List.not_mem_nil
        · rw [List.infix_nil]
          exact List.cons_ne_nil _ _

theorem parseAtom_broken {text : Text} (h : (parseAtom text).isBroken) :
    ∃ token c rest, text = token ++ c :: rest ∧ InAtom token ∧ isAscii c = false := by
  rcases Step.isBroken_bind h with h | ⟨token, rest, -, h⟩
  · exact scanAtom_broken h
  · split at h <;> cases h

theorem parseString_not_broken {fromStr : Text → Option Text} {text : Text} :
    ¬ (parseString fromStr text).isBroken := by
  unfold parseString
  split
  next => exact Bool.false_ne_true
  next => split <;> exact Bool.false_ne_true

theorem parseAnnotation_not_broken {start suffixStart : Text} {v : GraphValue} :
    ¬ ( parseAnnotation start v suffixStart).isBroken := by
  unfold parseAnnotation
  split
  next => split <;> exact Bool.false_ne_true
  next => exact Bool.false_ne_true

theorem parseItems_broken {n : Nat} {inner : Text → Step GraphValue} (hinner : Gives n inner)
    (hbroken : ∀ text, (inner text).isBroken → Breaks n text .value) {fuel : Nat}
    {values : List GraphValue} {text : Text} (h : (parseItems inner fuel values text).isBroken) :
    Breaks n text .items := by
  induction fuel generalizing values text with
  | zero => cases h
  | succ fuel ih =>
    rcases Step.isBroken_bind h with hv | ⟨v, mid, hv, hnext⟩
    · exact .item (hbroken _ hv)
    · obtain ⟨used, rfl, hused⟩ := hinner _ _ _ hv
      obtain ⟨after, hafter, hmid⟩ := exists_space mid
      split at hnext
      next => cases hnext
      next more hskip =>
        rw [hmid, hskip]
        exact .items hused hafter (ih hnext)
      next => cases hnext

theorem parseMembers_broken {fromStr : Text → Option Text} (hread : ReadsLiterals fromStr) {n : Nat}
    {inner : Text → Step GraphValue} (hinner : Gives n inner)
    (hbroken : ∀ text, (inner text).isBroken → Breaks n text .value) {fuel : Nat} {values : Fields}
    {text : Text} (h : (parseMembers fromStr inner fuel values text).isBroken) :
    Breaks n text .members := by
  induction fuel generalizing values text with
  | zero => cases h
  | succ fuel ih =>
    obtain ⟨before, hbefore, htext⟩ := exists_space text
    rw [parseMembers] at h
    split at h
    next quoted hquoted =>
      rcases Step.isBroken_bind h with hkey | ⟨key, mid, hkey, hnext⟩
      · exact absurd hkey parseString_not_broken
      obtain ⟨pieces, hpieces, hliteral, rfl⟩ := parseString_sound hread hkey
      obtain ⟨between, hbetween, hmid⟩ := exists_space mid
      split at hnext
      next inside hinside =>
        rw [htext, hquoted, hliteral, hmid, hinside]
        rcases Step.isBroken_bind hnext with hv | ⟨v, mid', hv, hrest⟩
        · exact .member hbefore hpieces hbetween (hbroken _ hv)
        obtain ⟨used, rfl, hused⟩ := hinner _ _ _ hv
        obtain ⟨after, hafter, hmid'⟩ := exists_space mid'
        split at hrest
        next => cases hrest
        next more hskip =>
          rw [hmid', hskip]
          exact .members hbefore hpieces hbetween hused hafter (ih hrest)
        next => cases hrest
      next => cases hnext
    next => cases h

theorem parseCore_broken {fromStr : Text → Option Text} (hread : ReadsLiterals fromStr) {n : Nat}
    {inner : Text → Step GraphValue} (hinner : Gives n inner)
    (hbroken : ∀ text, (inner text).isBroken → Breaks n text .value) {before text : Text}
    (hbefore : IsSpace before) (h : (parseCore fromStr inner text).isBroken) :
    Breaks (n + 1) (before ++ text) .value := by
  cases text with
  | nil => cases h
  | cons c text =>
    rw [parseCore] at h
    split at h
    next => exact absurd (Step.isBroken_map h) parseString_not_broken
    next hquote =>
    split at h
    next hbrace =>
      have h := Step.isBroken_map h
      obtain ⟨spaces, hspaces, htext⟩ := exists_space text
      subst hbrace
      refine .map hbefore ?_
      unfold parseMap at h
      split at h
      next => cases h
      next =>
        rw [htext]
        exact (parseMembers_broken hread hinner hbroken h).space_members hspaces
    next hbrace =>
    split at h
    next hbracket =>
      have h := Step.isBroken_map h
      obtain ⟨spaces, hspaces, htext⟩ := exists_space text
      subst hbracket
      unfold parseList at h
      split at h
      next => cases h
      next hopen =>
        refine .list hbefore ?_ ?_
        · intro hhead
          obtain ⟨rest, hrest⟩ := List.head?_eq_some_iff.1 hhead
          exact hopen rest hrest
        · rw [htext]
          exact (parseItems_broken hinner hbroken h).space_items hspaces
    next hbracket =>
      obtain ⟨token, d, rest, htoken, hatom, hd⟩ := parseAtom_broken h
      rw [htoken]
      refine .atom hbefore hatom hd ?_
      intro e he
      cases token with
      | nil => cases he
      | cons e' token =>
        cases he
        cases htoken
        unfold opens
        rw [decide_eq_false hquote, decide_eq_false hbrace, decide_eq_false hbracket]
        rfl

/-- **Where the parser gives no value and does not refuse, it breaks as described.** -/
theorem parseValue_broken {fromStr : Text → Option Text} (hread : ReadsLiterals fromStr)
    {stack : Nat} {text : Text} (h : (parseValue fromStr stack text).isBroken) :
    Breaks stack text .value := by
  induction stack generalizing text with
  | zero => exact .deep
  | succ stack ih =>
    obtain ⟨before, hbefore, htext⟩ := exists_space text
    rcases Step.isBroken_bind h with h | ⟨v, mid, -, h⟩
    · rw [htext]
      exact parseCore_broken hread (parseValue_reads hread stack) (fun _ => ih) hbefore h
    · exact absurd h parseAnnotation_not_broken

/-! ### Texts that break nothing -/

def isBracket (c : Char) : Bool := c = '[' || c = '{'

/-- Only a character outside ASCII breaks the parser, or brackets it has no room for. -/
theorem Breaks.cause {n : Nat} {text : Text} {place : Place} (h : Breaks n text place) :
    (∃ c ∈ text, isAscii c = false) ∨ n ≤ text.countP isBracket := by
  induction h with
  | deep => exact .inr (Nat.zero_le _)
  | atom hbefore htoken hc hopens => exact .inl ⟨_, by simp, hc⟩
  | @list n before text hbefore hopen hitems ih =>
    refine ih.imp (fun ⟨c, hmem, hc⟩ => ⟨c, by simp [hmem], hc⟩) fun hn => ?_
    rw [List.countP_append, List.countP_cons_of_pos rfl]
    omega
  | @map n before text hbefore hmembers ih =>
    refine ih.imp (fun ⟨c, hmem, hc⟩ => ⟨c, by simp [hmem], hc⟩) fun hn => ?_
    rw [List.countP_append, List.countP_cons_of_pos rfl]
    omega
  | item hvalue ih => exact ih
  | items hvalue hafter hmore ih =>
    refine ih.imp (fun ⟨c, hmem, hc⟩ => ⟨c, by simp [hmem], hc⟩) fun hn => ?_
    simp only [List.countP_append, List.countP_cons]
    omega
  | member hbefore hpieces hbetween hvalue ih =>
    refine ih.imp (fun ⟨c, hmem, hc⟩ => ⟨c, by simp [hmem], hc⟩) fun hn => ?_
    simp only [List.countP_append, List.countP_cons]
    omega
  | members hbefore hpieces hbetween hvalue hafter hmore ih =>
    refine ih.imp (fun ⟨c, hmem, hc⟩ => ⟨c, by simp [hmem], hc⟩) fun hn => ?_
    simp only [List.countP_append, List.countP_cons]
    omega

/-- An ASCII cell with fewer brackets than the stack has room for is read or refused. -/
theorem parseAgtype_ascii {fromStr : Text → Option Text} (hread : ReadsLiterals fromStr)
    {stack : Nat} {text : Text} (hascii : ∀ c ∈ text, isAscii c)
    (hstack : text.countP isBracket < stack) :
    (∃ v, parseAgtype fromStr stack text = .ok v) ∨
      ∃ message, parseAgtype fromStr stack text = .error (mappingError message) := by
  have hwhole : ¬ (parseValue fromStr stack text).isBroken := by
    intro h
    rcases (parseValue_broken hread h).cause with ⟨c, hmem, hc⟩ | hn
    · rw [hascii c hmem] at hc
      cases hc
    · omega
  unfold parseAgtype
  split
  next => exact .inr ⟨_, rfl⟩
  next =>
    cases hvalue : parseValue fromStr stack text with
    | done v rest =>
      dsimp only
      split
      next => exact .inl ⟨v, rfl⟩
      next => exact .inr ⟨_, rfl⟩
    | refused message => exact .inr ⟨message, rfl⟩
    | panics => exact absurd (by rw [hvalue]; rfl) hwhole
    | overflows => exact absurd (by rw [hvalue]; rfl) hwhole

theorem parseAgtype_ascii_nested :
    (∃ v, parseAgtype fromStr 4 nested = .ok v) ∨
      ∃ message, parseAgtype fromStr 4 nested = .error (mappingError message) :=
  parseAgtype_ascii fromStr_spec (List.all_eq_true.1 (by rfl)) (by decide +kernel)

end Plenora.Postgres.Agtype
