import Plenora.Postgres.NumericCodec

/-!
# The NUMERIC codec is exact

The digits are padded on both sides to whole groups around the point, and the zero
groups at both ends go: neither changes the number, and reading puts the groups back
where they stood.

    gs = zeros ++ stripped gs ++ zeros, without a zero at either end        (stripped_spec)
    digitAt (stripped gs) (p - leadingZeros gs) = gs.getD p 0                (digitAt_stripped)
    numericDecoded bytes = .ok (sign ++ canonical integer ++ fraction)       (decode_encode)
-/

namespace Plenora.Postgres.Numeric

open Plenora.Lib Plenora.Lib.Decimal

/-! ## Zero groups -/

def stripped (gs : List Nat) : List Nat :=
  (gs.take (max (gs.length - leadingZeros gs.reverse) (leadingZeros gs))).drop (leadingZeros gs)

theorem leadingZeros_append {c : Nat} (hc : c ≠ 0) (n : Nat) (gs : List Nat) :
    leadingZeros (List.replicate n 0 ++ c :: gs) = n := by
  unfold leadingZeros
  induction n with
  | zero => rw [List.replicate_zero, List.nil_append, List.takeWhile_cons_of_neg (by simpa using hc)]; rfl
  | succ n ih =>
    rw [List.replicate_succ, List.cons_append, List.takeWhile_cons_of_pos (by simp),
      List.length_cons, ih]

theorem leadingZeros_replicate (n : Nat) : leadingZeros (List.replicate n 0) = n := by
  unfold leadingZeros
  induction n with
  | zero => rfl
  | succ n ih =>
    rw [List.replicate_succ, List.takeWhile_cons_of_pos (by simp), List.length_cons, ih]

/-- A list of zeros, or zeros around groups that end in other numbers. -/
theorem zeros_around (gs : List Nat) :
    (∃ n, gs = List.replicate n 0) ∨
      ∃ m c core n, gs = List.replicate m 0 ++ c :: core ++ List.replicate n 0 ∧ c ≠ 0 ∧
        ∀ g ∈ (c :: core).getLast?, g ≠ 0 := by
  induction gs with
  | nil => exact .inl ⟨0, rfl⟩
  | cons g gs ih =>
    by_cases hg : g = 0
    · subst hg
      rcases ih with ⟨n, rfl⟩ | ⟨m, c, core, n, rfl, hc, hlast⟩
      · exact .inl ⟨n + 1, rfl⟩
      · exact .inr ⟨m + 1, c, core, n, rfl, hc, hlast⟩
    · refine .inr ?_
      rcases ih with ⟨n, rfl⟩ | ⟨m, c, core, n, rfl, hc, hlast⟩
      · refine ⟨0, g, [], n, rfl, hg, ?_⟩
        intro x hx
        rw [List.getLast?_singleton, Option.mem_some_iff] at hx
        exact hx ▸ hg
      · refine ⟨0, g, List.replicate m 0 ++ c :: core, n, rfl, hg, ?_⟩
        rw [← List.cons_append, List.getLast?_append_cons]
        exact hlast

theorem stripped_replicate (n : Nat) : stripped (List.replicate n 0) = [] := by
  unfold stripped
  rw [List.reverse_replicate, leadingZeros_replicate, List.length_replicate,
    List.drop_eq_nil_iff, List.length_take]
  omega

theorem stripped_append {c : Nat} {core : List Nat} (hc : c ≠ 0)
    (hlast : ∀ g ∈ (c :: core).getLast?, g ≠ 0) (m n : Nat) :
    stripped (List.replicate m 0 ++ c :: core ++ List.replicate n 0) = c :: core := by
  have hleading : leadingZeros (List.replicate m 0 ++ c :: core ++ List.replicate n 0) = m := by
    rw [List.append_assoc, List.cons_append, leadingZeros_append hc]
  have htrailing :
      leadingZeros (List.replicate m 0 ++ c :: core ++ List.replicate n 0).reverse = n := by
    rw [List.reverse_append, List.reverse_append, List.reverse_replicate, List.reverse_replicate]
    cases hrev : (c :: core).reverse with
    | nil => exact absurd (List.reverse_eq_nil_iff.1 hrev) (List.cons_ne_nil c core)
    | cons last rest =>
      have hne : last ≠ 0 := hlast last (by rw [← List.head?_reverse, hrev]; rfl)
      rw [List.cons_append, leadingZeros_append hne]
  unfold stripped
  have hlen : (List.replicate m 0 ++ c :: core).length = m + (core.length + 1) := by
    rw [List.length_append, List.length_replicate, List.length_cons]
  have hstop : max ((List.replicate m 0 ++ c :: core ++ List.replicate n 0).length - n) m =
      (List.replicate m 0 ++ c :: core).length := by
    rw [List.length_append, List.length_replicate, hlen]
    omega
  rw [hleading, htrailing, hstop, List.take_left,
    List.drop_left' (by rw [List.length_replicate])]

/-- **Only zero groups go**, and none is left at either end. -/
theorem stripped_spec (gs : List Nat) :
    (∃ n, gs = List.replicate (leadingZeros gs) 0 ++ stripped gs ++ List.replicate n 0) ∧
      (∀ g ∈ (stripped gs).head?, g ≠ 0) ∧ ∀ g ∈ (stripped gs).getLast?, g ≠ 0 := by
  rcases zeros_around gs with ⟨n, rfl⟩ | ⟨m, c, core, n, rfl, hc, hlast⟩
  · rw [stripped_replicate, leadingZeros_replicate]
    refine ⟨⟨0, by simp⟩, ?_, ?_⟩
    · exact fun g hg => (by cases hg)
    · exact fun g hg => (by cases hg)
  · have hleading : leadingZeros (List.replicate m 0 ++ c :: core ++ List.replicate n 0) = m := by
      rw [List.append_assoc, List.cons_append, leadingZeros_append hc]
    rw [stripped_append hc hlast, hleading]
    refine ⟨⟨n, rfl⟩, ?_, hlast⟩
    intro g hg
    rw [List.head?_cons, Option.mem_some_iff] at hg
    exact hg ▸ hc

/-- The groups that are left, by their places. -/
theorem digitAt_stripped (gs : List Nat) (p : Nat) :
    digitAt (stripped gs) ((p : Int) - leadingZeros gs) = gs.getD p 0 := by
  obtain ⟨⟨n, hgs⟩, -⟩ := stripped_spec gs
  obtain ⟨lead, hlead⟩ : ∃ lead, leadingZeros gs = lead := ⟨_, rfl⟩
  obtain ⟨kept, hkept⟩ : ∃ kept, stripped gs = kept := ⟨_, rfl⟩
  rw [hlead, hkept] at hgs ⊢
  rw [hgs]
  unfold digitAt
  split
  next h =>
    have hp : p < lead := by omega
    rw [List.append_assoc, List.getD_append _ _ _ _ (by rwa [List.length_replicate]),
      List.getD_replicate _ hp]
  next h =>
    have hp : lead ≤ p := by omega
    have hto : ((p : Int) - lead).toNat = p - lead := by omega
    rw [hto, List.append_assoc, List.getD_append_right _ _ _ _ (by rwa [List.length_replicate]),
      List.length_replicate]
    by_cases hin : p - lead < kept.length
    · rw [List.getD_append _ _ _ _ hin]
    · rw [List.getD_append_right _ _ _ _ (by omega), List.getD_eq_default _ _ (by omega)]
      by_cases htail : p - lead - kept.length < n
      · rw [List.getD_replicate _ htail]
      · rw [List.getD_eq_default _ _ (by rw [List.length_replicate]; omega)]

/-! ## The text of the groups -/

theorem four_zero : four 0 = zeros 4 := by decide

theorem flatMap_four_zeros (n : Nat) :
    (List.replicate n 0).flatMap four = List.replicate (4 * n) '0' := by
  induction n with
  | zero => rfl
  | succ n ih =>
    rw [List.replicate_succ, List.flatMap_cons, ih, four_zero, zeros, List.replicate_append_replicate]
    congr 1
    omega

theorem canonical_of_head {l : List Char} (hne : l ≠ []) (h : ∀ c ∈ l.head?, c ≠ '0') :
    canonical l = l := by
  unfold canonical
  rw [trimStart_of_head h, if_neg hne]

theorem head_toDigits {n : Nat} (hn : n ≠ 0) : ∀ c ∈ (Nat.toDigits 10 n).head?, c ≠ '0' := by
  have h := canonical_toDigits n
  unfold canonical at h
  split at h
  next hnil =>
    have := value_toDigits n
    rw [← h] at this
    exact absurd this.symm hn
  next => exact h ▸ head_trimStart _

theorem toDigits_ne_nil (n : Nat) : Nat.toDigits 10 n ≠ [] := by
  intro h
  have := Nat.length_toDigits_pos (b := 10) (n := n)
  rw [h] at this
  exact absurd this (by decide)

/-- The first group without its zeros, the others with four digits each. -/
theorem foldl_groups (c : Nat) (gs : List Nat) :
    (c :: gs).foldl (fun text chunk =>
      if text = [] then Nat.toDigits 10 chunk else text ++ four chunk) [] =
      Nat.toDigits 10 c ++ gs.flatMap four := by
  have hrest (text : List Char) (hne : text ≠ []) (gs : List Nat) :
      gs.foldl (fun text chunk =>
        if text = [] then Nat.toDigits 10 chunk else text ++ four chunk) text =
        text ++ gs.flatMap four := by
    induction gs generalizing text with
    | nil => rw [List.foldl_nil, List.flatMap_nil, List.append_nil]
    | cons g gs ih =>
      rw [List.foldl_cons, if_neg hne, ih _ (by simp [hne]), List.flatMap_cons, List.append_assoc]
  rw [List.foldl_cons, if_pos rfl, hrest _ (toDigits_ne_nil c)]

theorem canonical_groups {c : Nat} (hc : c ≠ 0) (n : Nat) (gs : List Nat) :
    canonical ((List.replicate n 0 ++ c :: gs).flatMap four) =
      Nat.toDigits 10 c ++ gs.flatMap four := by
  have hhead : ∀ d ∈ (Nat.toDigits 10 c ++ gs.flatMap four).head?, d ≠ '0' := by
    rw [List.head?_append_of_ne_nil _ (toDigits_ne_nil c)]
    exact head_toDigits hc
  rw [List.flatMap_append, flatMap_four_zeros, canonical_zeros, List.flatMap_cons, four,
    List.append_assoc, canonical_zeros, canonical_of_head (by simp) hhead]

/-- **The places before the point**, from the groups without the zero ones. -/
theorem integerPart_stripped {gs : List Nat} {m : Nat} (hm : m ≤ gs.length)
    (hne : stripped gs ≠ []) :
    integerPart (stripped gs) ((m : Int) - 1 - leadingZeros gs) =
      canonical ((gs.take m).flatMap four) := by
  obtain ⟨⟨n, hgs⟩, hhead, -⟩ := stripped_spec gs
  obtain ⟨lead, hlead⟩ : ∃ lead, leadingZeros gs = lead := ⟨_, rfl⟩
  unfold integerPart
  by_cases hneg : m ≤ lead
  · have htake : gs.take m = List.replicate m 0 := by
      rw [hgs, hlead, List.append_assoc, List.take_append_of_le_length (by simpa using hneg),
        List.take_replicate, Nat.min_eq_left hneg]
    have hzeros : canonical (List.replicate (4 * m) '0') = ['0'] := by
      rw [← List.append_nil (List.replicate _ _), canonical_zeros]
      rfl
    have hweight : ¬ (m : Int) - 1 - leadingZeros gs ≥ 0 := by omega
    rw [htake, flatMap_four_zeros, hzeros]
    simp only [if_neg hweight, if_pos]
  · have hpos : lead < m := by omega
    have hlist : (List.range (((m : Int) - 1 - leadingZeros gs).toNat + 1)).reverse.map
        (fun (pos : Nat) => digitAt (stripped gs) ((m : Int) - 1 - leadingZeros gs - pos)) =
          (gs.take m).drop lead := by
      apply List.ext_getElem
      · simp only [List.length_map, List.length_reverse, List.length_range, List.length_drop,
          List.length_take]
        omega
      · intro i hi hi'
        simp only [List.length_map, List.length_reverse, List.length_range] at hi
        rw [List.getElem_map, List.getElem_reverse, List.getElem_range, List.getElem_drop,
          List.getElem_take, List.length_range]
        have hplace : (m : Int) - 1 - leadingZeros gs -
            ((((m : Int) - 1 - leadingZeros gs).toNat + 1 - 1 - i : Nat) : Int) =
              ((lead + i : Nat) : Int) - leadingZeros gs := by omega
        rw [hplace, digitAt_stripped, List.getD_eq_getElem _ _ (by omega)]
    have hkept : ∃ c core, (gs.take m).drop lead = c :: core ∧ c ≠ 0 := by
      cases hcases : stripped gs with
      | nil => exact absurd hcases hne
      | cons c core =>
        have hfirst : gs[lead]? = some c := by
          rw [hgs, hlead, hcases, List.append_assoc,
            List.getElem?_append_right (by rw [List.length_replicate])]
          simp
        have hc : c ≠ 0 := hhead c (by rw [hcases]; rfl)
        have hin : lead < (gs.take m).length := by rw [List.length_take]; omega
        refine ⟨c, (gs.take m).drop (lead + 1), ?_, hc⟩
        rw [List.drop_eq_getElem_cons hin, List.getElem_take]
        rw [List.getElem?_eq_getElem (by omega), Option.some.injEq] at hfirst
        rw [hfirst]
    obtain ⟨c, core, hdrop, hc⟩ := hkept
    have htake : gs.take m = List.replicate lead 0 ++ c :: core := by
      rw [← hdrop]
      conv_lhs => rw [← List.take_append_drop lead (gs.take m)]
      congr 1
      rw [List.take_take, Nat.min_eq_left hpos.le, hgs, hlead, List.append_assoc,
        List.take_left' (by rw [List.length_replicate])]
    have hwritten (positions : List Nat) :
        (positions.map fun (pos : Nat) =>
          digitAt (stripped gs) ((m : Int) - 1 - leadingZeros gs - pos)).foldl
            (fun text chunk => if text = [] then Nat.toDigits 10 chunk else text ++ four chunk) [] =
          positions.foldl (fun text (pos : Nat) =>
            if text = [] then
              Nat.toDigits 10 (digitAt (stripped gs) ((m : Int) - 1 - leadingZeros gs - pos))
            else text ++ four (digitAt (stripped gs) ((m : Int) - 1 - leadingZeros gs - pos))) [] :=
      List.foldl_map
    have hwritten := hwritten (List.range (((m : Int) - 1 - leadingZeros gs).toNat + 1)).reverse
    rw [hlist, hdrop, foldl_groups] at hwritten
    have hweight : (m : Int) - 1 - leadingZeros gs ≥ 0 := by omega
    have hsome : Nat.toDigits 10 c ++ core.flatMap four ≠ [] := by simp
    rw [htake, canonical_groups hc]
    simp only [if_pos hweight, ← hwritten, if_neg hsome]

/-- **The places after the point**, cut to the declared scale. -/
theorem fractionPart_stripped (gs : List Nat) (m dscale : Nat)
    (hlen : gs.length = m + (dscale + 3) / 4) :
    fractionPart (stripped gs) ((m : Int) - 1 - leadingZeros gs) dscale =
      ((gs.drop m).flatMap four).take dscale := by
  have hplaces : (List.range ((dscale + 3) / 4)).map (fun (i : Nat) => digitAt (stripped gs)
      ((m : Int) - 1 - leadingZeros gs - (-1 - (i : Int)))) = gs.drop m := by
    apply List.ext_getElem
    · simp only [List.length_map, List.length_range, List.length_drop]
      omega
    · intro i hi hi'
      rw [List.length_drop] at hi'
      have hplace : (m : Int) - 1 - leadingZeros gs - (-1 - (i : Int)) =
          ((m + i : Nat) : Int) - leadingZeros gs := by omega
      rw [List.getElem_map, List.getElem_range, List.getElem_drop, hplace, digitAt_stripped,
        List.getD_eq_getElem _ _ (by omega)]
  have hfours (l : List Nat) : 4 * l.length ≤ (l.flatMap four).length := by
    induction l with
    | nil => exact Nat.le_refl _
    | cons g l ih =>
      rw [List.flatMap_cons, List.length_append, List.length_cons, four, List.length_append,
        List.length_replicate]
      omega
  have hlong := hfours (gs.drop m)
  rw [List.length_drop] at hlong
  have hwritten := congrArg (List.flatMap four) hplaces
  rw [List.flatMap_map] at hwritten
  unfold fractionPart
  simp only [hwritten]
  rw [List.length_take, Nat.min_eq_left (by omega), Nat.sub_self]
  exact List.append_nil _

/-! ## Words -/

theorem length_beBytes (n : Int) : (beBytes n).length = 2 := by
  rw [beBytes, List.length_reverse, length_leBytes]

theorem length_words (ws : List Int) : (ws.flatMap beBytes).length = 2 * ws.length := by
  induction ws with
  | nil => rfl
  | cons w ws ih =>
    rw [List.flatMap_cons, List.length_append, length_beBytes, ih, List.length_cons]
    omega

/-- **The words are read back by their places.** -/
theorem u16Of_words (ws : List Int) (i : Nat) (hi : i < ws.length) :
    (u16Of (ws.flatMap beBytes) (2 * i) : Int) = ws[i] % 2 ^ 16 := by
  have hdrop : (ws.flatMap beBytes).drop (2 * i) = (ws.drop i).flatMap beBytes := by
    have hsplit := congrArg (List.flatMap beBytes) (List.take_append_drop i ws)
    rw [List.flatMap_append] at hsplit
    rw [← hsplit, List.drop_left']
    rw [length_words, List.length_take]
    omega
  have hword : ((ws.flatMap beBytes).drop (2 * i)).take 2 = beBytes ws[i] := by
    rw [hdrop, List.drop_eq_getElem_cons hi, List.flatMap_cons,
      List.take_left' (length_beBytes _)]
  rw [u16Of, hword, beBytes, List.reverse_reverse, natOfLe_leBytes]
  have := Int.emod_nonneg ws[i] (show (2 : Int) ^ 16 ≠ 0 by decide)
  have := Int.emod_lt_of_pos ws[i] (show (0 : Int) < 2 ^ 16 by decide)
  omega

theorem i16Of_words (ws : List Int) (i : Nat) (hi : i < ws.length)
    (hlo : -2 ^ 15 ≤ ws[i]) (hhi : ws[i] < 2 ^ 15) :
    i16Of (ws.flatMap beBytes) (2 * i) = ws[i] := by
  have hword := u16Of_words ws i hi
  have heq : i16Of (ws.flatMap beBytes) (2 * i) =
      if u16Of (ws.flatMap beBytes) (2 * i) < 2 ^ 15 then
        (u16Of (ws.flatMap beBytes) (2 * i) : Int)
      else u16Of (ws.flatMap beBytes) (2 * i) - 2 ^ 16 := rfl
  rw [heq]
  split
  all_goals omega

/-! ## The digits around the point -/

/-- The digits that are cut into groups. -/
def written (value scale : Int) : List Char :=
  withInteger (scaled value scale).1 (scaled value scale).2

/-- How many of them stand before the point. -/
def before (value scale : Int) : Nat := (written value scale).length - (scaled value scale).2

theorem scaled_snd (value scale : Int) : (scaled value scale).2 = scale.toNat := by
  unfold scaled
  split
  next h => exact (Int.toNat_of_nonpos (by omega)).symm
  next => rfl

theorem scaled_fst (value scale : Int) :
    (scaled value scale).1 = digitsOf value ++ zeros (-scale).toNat := by
  unfold scaled
  split
  next h => rw [show scale.natAbs = (-scale).toNat by omega]
  next h => rw [show (-scale).toNat = 0 by omega, zeros, List.replicate_zero, List.append_nil]

theorem allDigits_zeros (n : Nat) : AllDigits (zeros n) := allDigits_replicate_zero n

theorem withInteger_spec {digits : List Char} (h : AllDigits digits) (scale : Nat) :
    AllDigits (withInteger digits scale) ∧ Decimal.value (withInteger digits scale) = Decimal.value digits ∧
      (withInteger digits scale).length = max digits.length (scale + 1) := by
  unfold withInteger
  split
  next hle =>
    refine ⟨allDigits_append.2 ⟨allDigits_zeros _, h⟩, ?_, ?_⟩
    · rw [value_append, zeros, value_replicate_zero, Nat.zero_mul, Nat.zero_add]
    · rw [List.length_append, zeros, List.length_replicate]
      omega
  next hlt => exact ⟨h, rfl, by omega⟩

theorem allDigits_written (v scale : Int) : AllDigits (written v scale) := by
  refine (withInteger_spec ?_ _).1
  rw [scaled_fst]
  exact allDigits_append.2 ⟨allDigits_toDigits _, allDigits_zeros _⟩

theorem value_written (v scale : Int) :
    Decimal.value (written v scale) = v.natAbs * 10 ^ (-scale).toNat := by
  have hdigits : AllDigits (scaled v scale).1 := by
    rw [scaled_fst]
    exact allDigits_append.2 ⟨allDigits_toDigits _, allDigits_zeros _⟩
  rw [written, (withInteger_spec hdigits _).2.1, scaled_fst, value_append, digitsOf, value_toDigits,
    zeros, value_replicate_zero, Nat.add_zero, List.length_replicate]

theorem length_written (v scale : Int) :
    (written v scale).length = before v scale + scale.toNat ∧ 0 < before v scale := by
  have hdigits : AllDigits (scaled v scale).1 := by
    rw [scaled_fst]
    exact allDigits_append.2 ⟨allDigits_toDigits _, allDigits_zeros _⟩
  have hlen := (withInteger_spec hdigits (scaled v scale).2).2.2
  unfold before written
  rw [hlen, scaled_snd]
  omega

theorem before_le {v scale : Int} (hv : v.natAbs < 10 ^ 38) (hlo : -2 ^ 7 ≤ scale) :
    before v scale ≤ 38 + 2 ^ 7 := by
  have hdigits : AllDigits (scaled v scale).1 := by
    rw [scaled_fst]
    exact allDigits_append.2 ⟨allDigits_toDigits _, allDigits_zeros _⟩
  have hlen := (withInteger_spec hdigits (scaled v scale).2).2.2
  have hshort := (Nat.length_toDigits_le_iff (b := 10) (n := v.natAbs) (k := 38) (by decide)
    (by decide)).2 hv
  unfold before written
  rw [hlen, scaled_snd, scaled_fst, List.length_append, digitsOf, zeros, List.length_replicate]
  omega

/-- **The digits before the point are written without zeros in front**, of zero with a
negative scale apart. -/
theorem canonical_before {v scale : Int} (h : ¬ (v = 0 ∧ scale < 0)) :
    canonical ((written v scale).take (before v scale)) =
      (written v scale).take (before v scale) := by
  have hpos := (length_written v scale).2
  have hlen := (length_written v scale).1
  have hone := Nat.length_toDigits_pos (b := 10) (n := v.natAbs)
  by_cases hshort : (scaled v scale).1.length ≤ (scaled v scale).2
  · have hwritten : written v scale =
        '0' :: (zeros ((scaled v scale).2 - (scaled v scale).1.length) ++ (scaled v scale).1) := by
      unfold written withInteger
      rw [if_pos hshort, Nat.succ_sub hshort]
      rfl
    have hfirst : before v scale = 1 := by
      unfold before
      rw [hwritten, List.length_cons, List.length_append, zeros, List.length_replicate]
      omega
    rw [hfirst, hwritten]
    rfl
  · have hwritten : written v scale = digitsOf v ++ zeros (-scale).toNat := by
      unfold written withInteger
      rw [if_neg hshort, scaled_fst]
    by_cases hzero : v = 0
    · have hscale : 0 ≤ scale := by
        by_contra hneg
        exact h ⟨hzero, by omega⟩
      have hdigits : written v scale = ['0'] := by
        rw [hwritten, hzero, show (-scale).toNat = 0 by omega]
        decide
      have hcount : before v scale = 1 := by
        rw [hdigits, List.length_singleton] at hlen
        omega
      rw [hdigits, hcount]
      rfl
    · apply canonical_of_head
      · intro hnil
        have := congrArg List.length hnil
        rw [List.length_take, hlen, List.length_nil] at this
        omega
      · rw [List.head?_take, if_neg (by omega), hwritten, digitsOf,
          List.head?_append_of_ne_nil _ (toDigits_ne_nil _)]
        exact head_toDigits (Int.natAbs_ne_zero.2 hzero)

/-- The text is the digits with their point. -/
theorem decimalString_eq (v scale : Int) :
    decimalString v scale = (if v < 0 then ['-'] else []) ++
      ((written v scale).take (before v scale) ++
        if scale.toNat = 0 then [] else '.' :: (written v scale).drop (before v scale)) := by
  have hlen := (length_written v scale).1
  unfold decimalString
  by_cases hneg : scale < 0
  · have hzero : scale.toNat = 0 := by omega
    have hone := Nat.length_toDigits_pos (b := 10) (n := v.natAbs)
    have hwritten : written v scale = digitsOf v ++ zeros (-scale).toNat := by
      unfold written withInteger
      rw [scaled_fst, scaled_snd, hzero, if_neg]
      rw [List.length_append, digitsOf]
      omega
    rw [if_pos hneg, if_pos hzero, List.append_nil, List.take_of_length_le (by omega), hwritten,
      show scale.natAbs = (-scale).toNat by omega]
  · have hwritten : written v scale = withInteger (digitsOf v) scale.toNat := by
      unfold written
      rw [scaled_fst, scaled_snd, show (-scale).toNat = 0 by omega, zeros, List.replicate_zero,
        List.append_nil]
    have hbefore : (written v scale).length - scale.toNat = before v scale := by omega
    rw [if_neg hneg]
    simp only [← hwritten, hbefore]
    by_cases hzero : scale.toNat = 0
    · rw [if_pos hzero, if_pos hzero, List.append_nil, List.take_of_length_le (by omega)]
    · rw [if_neg hzero, if_neg hzero]

/-! ## The bytes -/

/-- The digits before the point, in whole groups. -/
def integerDigits (v scale : Int) : List Char :=
  zeros ((4 - before v scale % 4) % 4) ++ (written v scale).take (before v scale)

/-- The digits after the point, in whole groups. -/
def fractionDigits (v scale : Int) : List Char :=
  (written v scale).drop (before v scale) ++ zeros ((4 - scale.toNat % 4) % 4)

/-- How many groups stand before the point. -/
def integerGroups (v scale : Int) : Nat := ((4 - before v scale % 4) % 4 + before v scale) / 4

/-- The groups of the digits, those of zeros included. -/
def allGroups (v scale : Int) : List Nat := groups (integerDigits v scale ++ fractionDigits v scale)

def weightOf (v scale : Int) : Int := (integerGroups v scale : Int) - 1 - leadingZeros (allGroups v scale)

/-- The words of the wire format. -/
def wordsOf (v scale : Int) : List Int :=
  [((stripped (allGroups v scale)).length : Int),
    if stripped (allGroups v scale) = [] then 0 else weightOf v scale,
    if v < 0 then 0x4000 else 0, (scale.toNat : Int)] ++
      (stripped (allGroups v scale)).map fun (g : Nat) => (g : Int)

theorem length_integerDigits (v scale : Int) :
    (integerDigits v scale).length = 4 * integerGroups v scale := by
  have hlen := (length_written v scale).1
  unfold integerDigits integerGroups
  rw [List.length_append, zeros, List.length_replicate, List.length_take]
  omega

theorem length_fractionDigits (v scale : Int) :
    (fractionDigits v scale).length = 4 * ((scale.toNat + 3) / 4) := by
  have hlen := (length_written v scale).1
  unfold fractionDigits
  rw [List.length_append, zeros, List.length_replicate, List.length_drop]
  omega

theorem allDigits_integerDigits (v scale : Int) : AllDigits (integerDigits v scale) :=
  allDigits_append.2 ⟨allDigits_zeros _, allDigits_take (allDigits_written v scale) _⟩

theorem allDigits_fractionDigits (v scale : Int) : AllDigits (fractionDigits v scale) :=
  allDigits_append.2 ⟨allDigits_drop (allDigits_written v scale) _, allDigits_zeros _⟩

theorem allGroups_eq (v scale : Int) :
    allGroups v scale = groups (integerDigits v scale) ++ groups (fractionDigits v scale) := by
  unfold allGroups groups
  rw [fours_append (length_integerDigits v scale), List.map_append]

theorem length_groups {n : Nat} {l : List Char} (h : l.length = 4 * n) : (groups l).length = n := by
  rw [groups, List.length_map, length_fours h]

theorem length_allGroups (v scale : Int) :
    (allGroups v scale).length = integerGroups v scale + (scale.toNat + 3) / 4 := by
  rw [allGroups_eq, List.length_append, length_groups (length_integerDigits v scale),
    length_groups (length_fractionDigits v scale)]

theorem take_allGroups (v scale : Int) :
    (allGroups v scale).take (integerGroups v scale) = groups (integerDigits v scale) := by
  rw [allGroups_eq, List.take_left' (length_groups (length_integerDigits v scale))]

theorem drop_allGroups (v scale : Int) :
    (allGroups v scale).drop (integerGroups v scale) = groups (fractionDigits v scale) := by
  rw [allGroups_eq, List.drop_left' (length_groups (length_integerDigits v scale))]

theorem mem_allGroups {v scale : Int} {g : Nat} (hg : g ∈ allGroups v scale) : g < 10000 := by
  have hdigits : AllDigits (integerDigits v scale ++ fractionDigits v scale) :=
    allDigits_append.2 ⟨allDigits_integerDigits v scale, allDigits_fractionDigits v scale⟩
  obtain ⟨chunk, hchunk, rfl⟩ := List.mem_map.1 hg
  obtain ⟨hlen, hsub⟩ := mem_fours hchunk
  have hlt := value_lt (l := chunk) fun c hc => hdigits c (hsub c hc)
  rwa [hlen] at hlt

theorem parse_groups {l : List Char} (h : AllDigits l) :
    (fours l).mapM parseBase10000Group = .ok (groups l) := by
  rw [mapM_eq_ok, groups, List.forall₂_map_right_iff, List.forall₂_same]
  intro chunk hchunk
  obtain ⟨hlen, hsub⟩ := mem_fours hchunk
  have hdigits : AllDigits chunk := fun c hc => h c (hsub c hc)
  have hlt := value_lt hdigits
  rw [hlen] at hlt
  have hne : chunk ≠ [] := by
    rintro rfl
    cases hlen
  have hparse : parseDigits 16 chunk = .ok (Decimal.value chunk) := by
    unfold parseDigits
    rw [if_neg (by simp [hne, hdigits]), if_pos (by omega)]
  unfold parseBase10000Group
  rw [failIf_neg (by omega), ok_bind, hparse, ok_bind, failIf_neg (by omega)]
  rfl

theorem length_stripped_le (gs : List Nat) : (stripped gs).length + leadingZeros gs ≤ gs.length := by
  obtain ⟨⟨n, hgs⟩, -⟩ := stripped_spec gs
  have hlen := congrArg List.length hgs
  rw [List.length_append, List.length_append, List.length_replicate, List.length_replicate] at hlen
  omega

/-- **The encoder succeeds**, and writes these words. -/
theorem encode_eq {v scale : Int} (hv : v.natAbs < 10 ^ 38) (hlo : -2 ^ 7 ≤ scale)
    (hhi : scale < 2 ^ 7) :
    encodeNumericBinary v scale = .ok ((wordsOf v scale).flatMap beBytes) := by
  have hbefore := before_le hv hlo
  have hcount := length_stripped_le (allGroups v scale)
  have htotal := length_allGroups v scale
  have hgroups : integerGroups v scale ≤ 42 := by
    unfold integerGroups
    omega
  have hpadded : zeros ((4 - before v scale % 4) % 4) ++ written v scale ++
      zeros ((4 - scale.toNat % 4) % 4) = integerDigits v scale ++ fractionDigits v scale := by
    unfold integerDigits fractionDigits
    rw [List.append_assoc, List.append_assoc, ← List.append_assoc (List.take _ _),
      List.take_append_drop]
  have hparse := parse_groups (allDigits_append.2
    ⟨allDigits_integerDigits v scale, allDigits_fractionDigits v scale⟩)
  have hasI16 (n : Int) (hn : -2 ^ 15 ≤ n) (hn' : n < 2 ^ 15) : asI16 n = some n :=
    if_pos ⟨hn, hn'⟩
  have hscaled : scaled v scale = ((scaled v scale).1, scale.toNat) := by rw [← scaled_snd v scale]
  have hwritten : withInteger (scaled v scale).1 scale.toNat = written v scale := by
    rw [written, scaled_snd]
  have hdigits : (written v scale).length - scale.toNat = before v scale := by
    have := (length_written v scale).1
    omega
  have hkept : ((allGroups v scale).take (max ((allGroups v scale).length -
      leadingZeros (allGroups v scale).reverse) (leadingZeros (allGroups v scale)))).drop
        (leadingZeros (allGroups v scale)) = stripped (allGroups v scale) := rfl
  have hweight : (asI16 ((integerGroups v scale : Int) - 1)).bind (fun weight =>
      (asI16 (leadingZeros (allGroups v scale))).bind fun leading => asI16 (weight - leading)) =
        some (weightOf v scale) := by
    rw [hasI16 _ (by omega) (by omega), Option.bind_some, hasI16 _ (by omega) (by omega),
      Option.bind_some, hasI16 _ (by omega) (by omega)]
    rfl
  unfold encodeNumericBinary
  rw [hscaled]
  simp only [hwritten, hdigits, hpadded]
  rw [hparse, ok_bind, ← allGroups, hkept, ← integerGroups, hasI16 (integerGroups v scale) (by omega) (by omega),
    okOr_some, ok_bind, hweight, okOr_some, ok_bind, hasI16 _ (by omega) (by omega), okOr_some,
    ok_bind]
  simp only [wordsOf, List.flatMap_append, List.flatMap_cons, List.flatMap_nil, List.append_nil,
    List.flatMap_map, List.append_assoc]

theorem length_wordsOf (v scale : Int) :
    (wordsOf v scale).length = 4 + (stripped (allGroups v scale)).length := by
  rw [wordsOf, List.length_append, List.length_map]
  rfl

/-- The weight fits its word. -/
theorem weightOf_bounds {v scale : Int} (hv : v.natAbs < 10 ^ 38) (hlo : -2 ^ 7 ≤ scale)
    (hhi : scale < 2 ^ 7) : -2 ^ 15 ≤ weightOf v scale ∧ weightOf v scale < 2 ^ 15 := by
  have hbefore := before_le hv hlo
  have hcount := length_stripped_le (allGroups v scale)
  have htotal := length_allGroups v scale
  have hgroups : integerGroups v scale ≤ 42 := by
    unfold integerGroups
    omega
  unfold weightOf
  omega

/-- **The header and the groups are read back.** -/
theorem header_spec {v scale : Int} (hv : v.natAbs < 10 ^ 38) (hlo : -2 ^ 7 ≤ scale)
    (hhi : scale < 2 ^ 7) :
    i16Of ((wordsOf v scale).flatMap beBytes) 0 = (stripped (allGroups v scale)).length ∧
      i16Of ((wordsOf v scale).flatMap beBytes) 2 =
        (if stripped (allGroups v scale) = [] then 0 else weightOf v scale) ∧
      u16Of ((wordsOf v scale).flatMap beBytes) 4 = (if v < 0 then 0x4000 else 0) ∧
      i16Of ((wordsOf v scale).flatMap beBytes) 6 = scale.toNat ∧
      u16Of ((wordsOf v scale).flatMap beBytes) 0 = (stripped (allGroups v scale)).length ∧
      u16Of ((wordsOf v scale).flatMap beBytes) 6 = scale.toNat := by
  have hcount := length_stripped_le (allGroups v scale)
  have htotal := length_allGroups v scale
  have hbefore := before_le hv hlo
  have hweight := weightOf_bounds hv hlo hhi
  have hgroups : integerGroups v scale ≤ 42 := by
    unfold integerGroups
    omega
  have hlen := length_wordsOf v scale
  have h0 : (wordsOf v scale)[0] = (stripped (allGroups v scale)).length := by
    simp only [wordsOf, List.cons_append, List.getElem_cons_zero]
  have h1 : (wordsOf v scale)[1] =
      if stripped (allGroups v scale) = [] then 0 else weightOf v scale := by
    simp only [wordsOf, List.cons_append, List.getElem_cons_succ, List.getElem_cons_zero]
  have h2 : (wordsOf v scale)[2] = if v < 0 then 0x4000 else 0 := by
    simp only [wordsOf, List.cons_append, List.getElem_cons_succ, List.getElem_cons_zero]
  have h3 : (wordsOf v scale)[3] = (scale.toNat : Int) := by
    simp only [wordsOf, List.cons_append, List.getElem_cons_succ, List.getElem_cons_zero]
  refine ⟨?_, ?_, ?_, ?_, ?_, ?_⟩
  · exact (i16Of_words _ 0 (by omega) (by rw [h0]; omega) (by rw [h0]; omega)).trans h0
  · refine (i16Of_words _ 1 (by omega) ?_ ?_).trans h1
    · rw [h1]
      split
      all_goals omega
    · rw [h1]
      split
      all_goals omega
  · have : (u16Of ((wordsOf v scale).flatMap beBytes) 4 : Int) = _ :=
      u16Of_words (wordsOf v scale) 2 (by omega)
    rw [h2] at this
    split at this
    next h => rw [if_pos h]; omega
    next h => rw [if_neg h]; omega
  · exact (i16Of_words _ 3 (by omega) (by rw [h3]; omega) (by rw [h3]; omega)).trans h3
  · have : (u16Of ((wordsOf v scale).flatMap beBytes) 0 : Int) = _ :=
      u16Of_words (wordsOf v scale) 0 (by omega)
    rw [h0] at this
    omega
  · have : (u16Of ((wordsOf v scale).flatMap beBytes) 6 : Int) = _ :=
      u16Of_words (wordsOf v scale) 3 (by omega)
    rw [h3] at this
    omega

theorem u16Of_group {v scale : Int} {i : Nat} (hi : i < (stripped (allGroups v scale)).length) :
    u16Of ((wordsOf v scale).flatMap beBytes) (8 + 2 * i) = (stripped (allGroups v scale))[i] := by
  have hlen := length_wordsOf v scale
  have hword := u16Of_words (wordsOf v scale) (4 + i) (by omega)
  have hget : (wordsOf v scale)[4 + i] = ((stripped (allGroups v scale))[i] : Int) := by
    have hle : [((stripped (allGroups v scale)).length : Int),
        if stripped (allGroups v scale) = [] then 0 else weightOf v scale,
        if v < 0 then 0x4000 else 0, (scale.toNat : Int)].length ≤ 4 + i := by
      simp only [List.length_cons, List.length_nil]
      omega
    unfold wordsOf
    rw [List.getElem_append_right hle, List.getElem_map]
    congr 2
    exact Nat.add_sub_cancel_left 4 i
  have hsub : (stripped (allGroups v scale))[i] ∈ allGroups v scale :=
    List.mem_of_mem_take (List.mem_of_mem_drop (List.getElem_mem hi))
  have hlt := mem_allGroups hsub
  rw [hget, show 2 * (4 + i) = 8 + 2 * i by omega] at hword
  omega

/-! ## The number -/

theorem value_groups (v scale : Int) :
    Decimal.value (integerDigits v scale ++ fractionDigits v scale) =
      v.natAbs * 10 ^ (-scale).toNat * 10 ^ ((4 - scale.toNat % 4) % 4) := by
  have hpadded : integerDigits v scale ++ fractionDigits v scale =
      zeros ((4 - before v scale % 4) % 4) ++ (written v scale ++
        zeros ((4 - scale.toNat % 4) % 4)) := by
    unfold integerDigits fractionDigits
    rw [List.append_assoc, ← List.append_assoc (List.take _ _), List.take_append_drop]
  rw [hpadded, value_append, zeros, value_replicate_zero, Nat.zero_mul, Nat.zero_add, value_append,
    zeros, value_replicate_zero, Nat.add_zero, value_written, List.length_replicate]

/-- **The groups with their weights are the number.** -/
theorem magnitude_stripped (v scale : Int) :
    magnitude (weightOf v scale) (stripped (allGroups v scale)) = v.natAbs * (10 : Rat) ^ (-scale) := by
  obtain ⟨⟨n, hgs⟩, -⟩ := stripped_spec (allGroups v scale)
  have hlen : (integerDigits v scale ++ fractionDigits v scale).length =
      4 * (integerGroups v scale + (scale.toNat + 3) / 4) := by
    rw [List.length_append, length_integerDigits, length_fractionDigits, Nat.mul_add]
  have hall : magnitude (weightOf v scale) (stripped (allGroups v scale)) =
      magnitude ((integerGroups v scale : Int) - 1) (allGroups v scale) := by
    conv_rhs => rw [hgs]
    rw [magnitude_append_zeros, magnitude_zeros]
    rfl
  have hexp : (10000 : Rat) ^ ((integerGroups v scale : Int) - 1 + 1 - (allGroups v scale).length) =
      (10 : Rat) ^ (-(4 * ((scale.toNat + 3) / 4 : Nat)) : Int) := by
    rw [length_allGroups, show (10000 : Rat) = (10 : Rat) ^ (4 : Int) by norm_num, ← zpow_mul]
    refine congrArg (fun e : Int => (10 : Rat) ^ e) ?_
    push_cast
    ring
  rw [hall, magnitude_eq, hexp, allGroups, baseValue_groups hlen, value_groups]
  push_cast
  rw [mul_assoc, mul_assoc, ← zpow_natCast, ← zpow_natCast, ← zpow_add₀ (by norm_num),
    ← zpow_add₀ (by norm_num)]
  refine congrArg (fun e : Int => (v.natAbs : Rat) * (10 : Rat) ^ e) ?_
  omega

/-- **Zero, and only zero, has no groups.** -/
theorem stripped_eq_nil_iff (v scale : Int) : stripped (allGroups v scale) = [] ↔ v = 0 := by
  have hnumber := magnitude_stripped v scale
  have hpow : (10 : Rat) ^ (-scale) ≠ 0 := zpow_ne_zero _ (by norm_num)
  constructor
  · intro h
    rw [h, magnitude] at hnumber
    rcases mul_eq_zero.1 hnumber.symm with hzero | hzero
    · exact Int.natAbs_eq_zero.1 (Nat.cast_eq_zero.1 hzero)
    · exact absurd hzero hpow
  · rintro rfl
    by_contra hne
    obtain ⟨-, hhead, -⟩ := stripped_spec (allGroups 0 scale)
    cases hkept : stripped (allGroups 0 scale) with
    | nil => exact hne hkept
    | cons c core =>
      have hc : c ≠ 0 := hhead c (by rw [hkept]; rfl)
      have hbase : baseValue (c :: core) ≠ 0 := by
        rw [baseValue_cons]
        have : 0 < c * 10000 ^ core.length :=
          Nat.mul_pos (Nat.pos_of_ne_zero hc) (Nat.pow_pos (by decide))
        omega
      rw [hkept, magnitude_eq, Int.natAbs_zero, Nat.cast_zero, zero_mul] at hnumber
      rcases mul_eq_zero.1 hnumber with hzero | hzero
      · exact hbase (Nat.cast_eq_zero.1 hzero)
      · exact absurd hzero (zpow_ne_zero _ (by norm_num))

theorem readDigits_words (v scale : Int) :
    readDigits ((wordsOf v scale).flatMap beBytes) (stripped (allGroups v scale)).length =
      .ok (stripped (allGroups v scale)) := by
  unfold readDigits
  rw [mapM_eq_ok, List.forall₂_iff_get]
  refine ⟨by rw [List.length_range], fun i hi hi' => ?_⟩
  have hsub : (stripped (allGroups v scale))[i] ∈ allGroups v scale :=
    List.mem_of_mem_take (List.mem_of_mem_drop (List.getElem_mem hi'))
  have hlt := mem_allGroups hsub
  rw [List.get_eq_getElem, List.get_eq_getElem, List.getElem_range, Nat.mul_comm i 2,
    u16Of_group hi']
  show (failIf _ _ >>= fun _ => _) = _
  rw [failIf_neg (by omega)]
  rfl

theorem flatMap_integer (v scale : Int) :
    ((allGroups v scale).take (integerGroups v scale)).flatMap four = integerDigits v scale := by
  rw [take_allGroups, flatMap_four_groups (allDigits_integerDigits v scale)
    (length_integerDigits v scale)]

theorem flatMap_fraction (v scale : Int) :
    (((allGroups v scale).drop (integerGroups v scale)).flatMap four).take scale.toNat =
      (written v scale).drop (before v scale) := by
  have hlen := (length_written v scale).1
  rw [drop_allGroups, flatMap_four_groups (allDigits_fractionDigits v scale)
    (length_fractionDigits v scale), fractionDigits, List.take_left']
  rw [List.length_drop]
  omega

/-- The digits of zero. -/
theorem written_zero (scale : Int) (h : 0 ≤ scale) : written 0 scale = zeros (scale.toNat + 1) := by
  unfold written
  rw [scaled_fst, scaled_snd, show (-scale).toNat = 0 by omega]
  have hdigits : digitsOf 0 ++ zeros 0 = ['0'] := by decide
  rw [hdigits]
  unfold withInteger
  split
  next => rw [List.length_singleton, Nat.add_sub_cancel, zeros, zeros, List.replicate_succ']
  next hlt =>
    rw [List.length_singleton] at hlt
    rw [show scale.toNat = 0 by omega]
    rfl

/-- **The decoder gives the text back**, and the zeros of a zero with a negative scale
as one digit. -/
theorem decode_words {v scale : Int} (hv : v.natAbs < 10 ^ 38) (hlo : -2 ^ 7 ≤ scale)
    (hhi : scale < 2 ^ 7) :
    numericDecoded ((wordsOf v scale).flatMap beBytes) =
      .ok (if v = 0 ∧ scale < 0 then ['0'] else decimalString v scale) := by
  obtain ⟨hcount, hweight, hsign, hscale, -, -⟩ := header_spec hv hlo hhi
  have hlen : ((wordsOf v scale).flatMap beBytes).length =
      8 + 2 * (stripped (allGroups v scale)).length := by
    rw [length_words, length_wordsOf]
    omega
  have hdscale : (max (scale.toNat : Int) 0).toNat = scale.toNat := by omega
  have hspecial : (if v < 0 then 0x4000 else 0) ≠ 0xC000 ∧ (if v < 0 then 0x4000 else 0) ≠ 0xD000 ∧
      (if v < 0 then 0x4000 else 0) ≠ 0xF000 := by
    split
    all_goals decide
  unfold numericDecoded
  rw [failIf_neg (by omega), ok_bind]
  simp only [hcount, hweight, hsign, hscale, hdscale, Int.toNat_natCast]
  rw [if_neg hspecial.1, if_neg hspecial.2.1, if_neg hspecial.2.2, failIf_neg (by omega), ok_bind,
    failIf_neg (by omega), ok_bind, readDigits_words, ok_bind]
  by_cases hnil : stripped (allGroups v scale) = []
  · have hzero := (stripped_eq_nil_iff v scale).1 hnil
    rw [if_pos (by rw [hnil]; rfl)]
    subst hzero
    congr 1
    by_cases hneg : scale < 0
    · rw [if_neg (by omega), if_pos ⟨rfl, hneg⟩]
    · have hbelow : ¬ ((0 : Int) = 0 ∧ scale < 0) := fun h => hneg h.2
      have hplus : (if (0 : Int) < 0 then ['-'] else []) = [] := rfl
      rw [if_neg hbelow, decimalString_eq, hplus, List.nil_append]
      have hbefore : before 0 scale = 1 := by
        unfold before
        rw [written_zero scale (by omega), zeros, List.length_replicate, scaled_snd]
        omega
      rw [written_zero scale (by omega), hbefore, zeros, zeros, List.replicate_succ]
      by_cases hpoint : scale.toNat = 0
      · rw [if_neg (by omega), if_pos hpoint]
        rfl
      · rw [if_pos (by omega), if_neg hpoint]
        rfl
  · rw [if_neg (fun h => hnil (List.length_eq_zero_iff.1 h)), if_neg hnil]
    have hinteger := @integerPart_stripped (allGroups v scale) (integerGroups v scale)
      (by rw [length_allGroups]; omega) hnil
    have hfraction := fractionPart_stripped (allGroups v scale) (integerGroups v scale) scale.toNat
      (length_allGroups v scale)
    rw [flatMap_integer, integerDigits, zeros, canonical_zeros] at hinteger
    rw [flatMap_fraction] at hfraction
    unfold weightOf
    rw [hinteger, hfraction]
    have hsign' : (if (if v < 0 then 0x4000 else 0) = 0x4000 then ['-'] else []) =
        if v < 0 then ['-'] else [] := by
      by_cases hneg : v < 0
      · rw [if_pos hneg, if_pos hneg, if_pos rfl]
      · rw [if_neg hneg, if_neg hneg, if_neg (by decide)]
    have hpoint : (if scale.toNat > 0 then '.' :: (written v scale).drop (before v scale) else []) =
        if scale.toNat = 0 then [] else '.' :: (written v scale).drop (before v scale) := by
      by_cases hzero : scale.toNat = 0
      · rw [if_neg (by omega), if_pos hzero]
      · rw [if_pos (by omega), if_neg hzero]
    rw [hsign', hpoint]
    congr 1
    have hzero : ¬ (v = 0 ∧ scale < 0) := fun h => hnil ((stripped_eq_nil_iff v scale).2 h.1)
    rw [if_neg hzero, decimalString_eq, canonical_before hzero, List.append_assoc]

/-! ## The text -/

theorem not_mem_of_allDigits {l : List Char} (h : AllDigits l) {c : Char} (hc : ¬ c.isDigit) :
    c ∉ l := fun hmem => hc (h c hmem)

theorem signed_digit {c : Char} {l : List Char} (hc : c.isDigit) : signed (c :: l) = (false, c :: l) := by
  unfold signed
  split
  next h =>
    obtain ⟨rfl, -⟩ := List.cons.inj h
    exact absurd hc (by decide)
  next h =>
    obtain ⟨rfl, -⟩ := List.cons.inj h
    exact absurd hc (by decide)
  next => rfl

theorem splitPoint_digits {l m : List Char} (hl : AllDigits l) :
    splitPoint (l ++ '.' :: m) = (l, m) := by
  have hall : ∀ c ∈ l, decide (c ≠ '.') = true := fun c hc =>
    decide_eq_true fun h => absurd (hl c hc) (by rw [h]; decide)
  unfold splitPoint
  rw [List.takeWhile_append_of_pos hall, List.dropWhile_append_of_pos hall,
    List.takeWhile_cons_of_neg (by decide), List.dropWhile_cons_of_neg (by decide), List.append_nil]
  rfl

theorem splitPoint_whole {l : List Char} (hl : AllDigits l) : splitPoint l = (l, []) := by
  have hall : ∀ c ∈ l, decide (c ≠ '.') = true := fun c hc =>
    decide_eq_true fun h => absurd (hl c hc) (by rw [h]; decide)
  unfold splitPoint
  rw [List.takeWhile_eq_self_iff.2 hall, List.dropWhile_eq_nil_iff.2 hall]
  rfl

/-- **The text of a number with a scale is read back.** -/
theorem parse_decimalString {v scale : Int} (hv : v.natAbs < 10 ^ 38) (hlo : 0 ≤ scale)
    (hhi : scale < 2 ^ 7) :
    parseNumericComponents (decimalString v scale) = .ok (v, scale) := by
  have hall := allDigits_written v scale
  obtain ⟨hlen, hpos⟩ := length_written v scale
  have hvalue := value_written v scale
  rw [show (-scale).toNat = 0 by omega, Nat.pow_zero, Nat.mul_one] at hvalue
  obtain ⟨I, hI⟩ : ∃ I, (written v scale).take (before v scale) = I := ⟨_, rfl⟩
  obtain ⟨F, hF⟩ : ∃ F, (written v scale).drop (before v scale) = F := ⟨_, rfl⟩
  have hjoin : I ++ F = written v scale := by rw [← hI, ← hF, List.take_append_drop]
  have hdigitsI : AllDigits I := hI ▸ allDigits_take hall _
  have hdigitsF : AllDigits F := hF ▸ allDigits_drop hall _
  have hlenF : F.length = scale.toNat := by rw [← hF, List.length_drop]; omega
  have hne : I ≠ [] := by
    rintro rfl
    have := congrArg List.length hI
    rw [List.length_take, List.length_nil] at this
    omega
  have hunsigned : splitPoint (I ++ if scale.toNat = 0 then [] else '.' :: F) = (I, F) := by
    split
    next h =>
      have hnil : F = [] := List.length_eq_zero_iff.1 (hlenF.trans h)
      rw [List.append_nil, splitPoint_whole hdigitsI, hnil]
    next => exact splitPoint_digits hdigitsI
  have hsigned : signed (decimalString v scale) =
      (decide (v < 0), I ++ if scale.toNat = 0 then [] else '.' :: F) := by
    rw [decimalString_eq, hI, hF]
    by_cases hneg : v < 0
    · rw [if_pos hneg, decide_eq_true hneg]
      rfl
    · rw [if_neg hneg, decide_eq_false hneg, List.nil_append]
      cases hcases : I with
      | nil => exact absurd hcases hne
      | cons c rest => exact signed_digit (hdigitsI c (hcases ▸ List.mem_cons_self))
  have hparse : parseDigits 128 (I ++ F) = .ok v.natAbs := by
    unfold parseDigits
    rw [hjoin, hvalue, if_neg, if_pos (by omega)]
    rintro (hnil | hnot)
    · rw [hnil, List.length_nil] at hlen
      omega
    · exact hnot hall
  unfold parseNumericComponents
  rw [hsigned]
  simp only [hunsigned]
  rw [failIf_neg (by simp [hne]), ok_bind, failIf_neg, ok_bind, failIf_neg (by omega), ok_bind,
    if_neg hne, hparse, ok_bind, hlenF]
  · have hsign : (if decide (v < 0) = true then -(v.natAbs : Int) else v.natAbs) = v := by
      by_cases hneg : v < 0
      · rw [if_pos (decide_eq_true hneg)]
        omega
      · rw [if_neg (by simpa using hneg)]
        omega
    rw [hsign, show (scale.toNat : Int) = scale by omega]
  · rintro (hpoint | ⟨hnil, -⟩ | hnot | hnot)
    · exact not_mem_of_allDigits hdigitsF (by decide) hpoint
    · exact hne hnil
    · exact hnot hdigitsI
    · exact hnot hdigitsF

/-! ## The codec is exact -/

/-- Groups in base 10000 without a zero one at either end, under a sign of a finite
number and a weight that fits its word. -/
structure Wire.WellFormed (w : Wire) : Prop where
  groups : ∀ g ∈ w.groups, g < 10000
  first : ∀ g ∈ w.groups.head?, g ≠ 0
  last : ∀ g ∈ w.groups.getLast?, g ≠ 0
  sign : w.sign = 0 ∨ w.sign = 0x4000
  weight : -2 ^ 15 ≤ w.weight ∧ w.weight < 2 ^ 15

/-- **The bytes carry the number exactly**, the decoder reads its text from them, and
the text of a number with a scale is read back. -/
theorem encode_exact (value scale : Int) (hvalue : value.natAbs < 10 ^ 38)
    (hlo : -2 ^ 7 ≤ scale) (hhi : scale < 2 ^ 7) :
    (∃ bytes wire, encodeNumericBinary value scale = .ok bytes ∧ readWire bytes = some wire ∧
        wire.number = value * (10 : Rat) ^ (-scale) ∧ wire.dscale = max scale 0 ∧
        wire.WellFormed ∧
        numericDecoded bytes =
          .ok (if value = 0 ∧ scale < 0 then ['0'] else decimalString value scale)) ∧
      (0 ≤ scale → parseNumericComponents (decimalString value scale) = .ok (value, scale)) := by
  refine ⟨?_, fun h => parse_decimalString hvalue h hhi⟩
  obtain ⟨-, hweight, hsign, -, hcount, hscale⟩ := header_spec hvalue hlo hhi
  obtain ⟨-, hfirst, hlast⟩ := stripped_spec (allGroups value scale)
  have hlen : ((wordsOf value scale).flatMap beBytes).length =
      8 + 2 * (stripped (allGroups value scale)).length := by
    rw [length_words, length_wordsOf]
    omega
  have hgroups : (List.range (stripped (allGroups value scale)).length).map
      (fun i => u16Of ((wordsOf value scale).flatMap beBytes) (8 + 2 * i)) =
        stripped (allGroups value scale) := by
    apply List.ext_getElem
    · rw [List.length_map, List.length_range]
    · intro i hi hi'
      rw [List.getElem_map, List.getElem_range, u16Of_group hi']
  refine ⟨_, ⟨stripped (allGroups value scale),
    if stripped (allGroups value scale) = [] then 0 else weightOf value scale,
    if value < 0 then 0x4000 else 0, scale.toNat⟩, encode_eq hvalue hlo hhi, ?_, ?_, ?_, ?_,
    decode_words hvalue hlo hhi⟩
  · unfold readWire
    rw [hcount, if_pos hlen, hgroups, hweight, hsign, hscale]
  · have hnumber := magnitude_stripped value scale
    have hmagnitude : magnitude (if stripped (allGroups value scale) = [] then 0
        else weightOf value scale) (stripped (allGroups value scale)) =
          value.natAbs * (10 : Rat) ^ (-scale) := by
      by_cases hnil : stripped (allGroups value scale) = []
      · rw [hnil] at hnumber ⊢
        exact hnumber
      · rw [if_neg hnil, hnumber]
    unfold Wire.number
    rw [hmagnitude]
    by_cases hneg : value < 0
    · have habs : ((value.natAbs : Int) : Rat) = ((-value : Int) : Rat) :=
        congrArg _ (by omega : (value.natAbs : Int) = -value)
      rw [if_pos hneg, if_pos rfl, ← Int.cast_natCast, habs]
      push_cast
      ring
    · have habs : ((value.natAbs : Int) : Rat) = (value : Rat) :=
        congrArg _ (by omega : (value.natAbs : Int) = value)
      rw [if_neg hneg, if_neg (show ¬ (0 : Nat) = 0x4000 by decide), ← Int.cast_natCast, habs, one_mul]
  · show (scale.toNat : Int) = max scale 0
    omega
  · refine ⟨fun g hg => ?_, hfirst, hlast, ?_, ?_⟩
    · exact mem_allGroups (List.mem_of_mem_take (List.mem_of_mem_drop hg))
    · by_cases hneg : value < 0
      · exact .inr (if_pos hneg)
      · exact .inl (if_neg hneg)
    · have := weightOf_bounds hvalue hlo hhi
      dsimp only
      split
      all_goals omega

theorem encode_twelve :
    (∃ bytes wire, encodeNumericBinary (-12050) 3 = .ok bytes ∧ readWire bytes = some wire ∧
        wire.number = (-12050 : Int) * (10 : Rat) ^ (-3 : Int) ∧
        (wire.dscale : Int) = max 3 0 ∧
        wire.WellFormed ∧ numericDecoded bytes = .ok "-12.050".toList) ∧
      parseNumericComponents "-12.050".toList = .ok (-12050, 3) := by
  obtain ⟨hwire, hparse⟩ := encode_exact (-12050) 3 (by decide) (by decide) (by decide)
  have htext : decimalString (-12050) 3 = "-12.050".toList := by decide +kernel
  rw [htext] at hwire hparse
  exact ⟨hwire, hparse (by decide)⟩

/-- The text of a zero with a negative scale has more zeros than the decoder writes. -/
theorem zero_negative_scale :
    ∃ bytes, encodeNumericBinary 0 (-2) = .ok bytes ∧
      numericDecoded bytes ≠ .ok (decimalString 0 (-2)) :=
  ⟨[0, 0, 0, 0, 0, 0, 0, 0], by decide +kernel, by decide +kernel⟩

end Plenora.Postgres.Numeric
