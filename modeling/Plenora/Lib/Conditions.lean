import Plenora.Lib.Kleene

/-!
# Conditions and their text

A condition of a `WHERE` clause over operands of any type, written as a list of
words and read back by the standard precedence: `NOT` before `AND` before `OR`,
and the `AND` of a `BETWEEN` belongs to it.

    c.Grouped → read c.print = some c.normal         (read_print)
    c.normal.eval M v = c.eval M v                   (eval_normal)

A condition is its shape and its operands from left to right, so two conditions
of one shape whose operands have the same values are equally true
(`eval_congr`).
-/

namespace Plenora.Lib

namespace Truth

def not : Truth → Truth
  | .true => .false
  | .false => .true
  | .unknown => .unknown

@[simp] theorem and_true (t : Truth) : t.and .true = t := by cases t <;> rfl

@[simp] theorem or_false (t : Truth) : t.or .false = t := by cases t <;> rfl

@[simp] theorem all_nil : all [] = .true := rfl

@[simp] theorem any_nil : any [] = .false := rfl

end Truth

namespace Conditions

/-- A condition with relation symbols `κ` (comparisons, `LIKE`) over operands `α`; an atom is a
call that is a condition by itself. -/
inductive Condition (κ α : Type) where
  | atom (a : α)
  | relation (op : κ) (a b : α)
  | inList (a : α) (bs : List α)
  | between (a low high : α)
  | isNull (negated : Bool) (a : α)
  | and (cs : List (Condition κ α))
  | or (cs : List (Condition κ α))
  | not (c : Condition κ α)

namespace Condition

variable {κ α β : Type}

@[induction_eliminator]
theorem ind {P : Condition κ α → Prop} (atom : ∀ a, P (.atom a))
    (relation : ∀ op a b, P (.relation op a b)) (inList : ∀ a bs, P (.inList a bs))
    (between : ∀ a low high, P (.between a low high))
    (isNull : ∀ negated a, P (.isNull negated a))
    (and : ∀ cs, (∀ c ∈ cs, P c) → P (.and cs)) (or : ∀ cs, (∀ c ∈ cs, P c) → P (.or cs))
    (not : ∀ c, P c → P (.not c)) (c : Condition κ α) : P c :=
  Condition.rec (motive_1 := P) (motive_2 := fun cs => ∀ c ∈ cs, P c) atom relation inList
    between isNull and or not (by simp) (by simp_all) c

/-! ## Shape and operands -/

def map (f : α → β) : Condition κ α → Condition κ β
  | .atom a => .atom (f a)
  | .relation op a b => .relation op (f a) (f b)
  | .inList a bs => .inList (f a) (bs.map f)
  | .between a low high => .between (f a) (f low) (f high)
  | .isNull negated a => .isNull negated (f a)
  | .and cs => .and (cs.map fun c => c.map f)
  | .or cs => .or (cs.map fun c => c.map f)
  | .not c => .not (c.map f)

/-- The condition without its operands. -/
def shape (c : Condition κ α) : Condition κ Unit := c.map fun _ => ()

/-- The operands from left to right. -/
def leaves : Condition κ α → List α
  | .atom a => [a]
  | .relation _ a b => [a, b]
  | .inList a bs => a :: bs
  | .between a low high => [a, low, high]
  | .isNull _ a => [a]
  | .and cs => cs.flatMap fun c => c.leaves
  | .or cs => cs.flatMap fun c => c.leaves
  | .not c => c.leaves

theorem leaves_map (f : α → β) (c : Condition κ α) : (c.map f).leaves = c.leaves.map f := by
  induction c with
  | atom a => simp [map, leaves]
  | relation op a b => simp [map, leaves]
  | inList a bs => simp [map, leaves]
  | between a low high => simp [map, leaves]
  | isNull negated a => simp [map, leaves]
  | and cs ih =>
    rw [map, leaves, leaves, List.flatMap_map, List.map_flatMap]
    exact List.flatMap_congr ih
  | or cs ih =>
    rw [map, leaves, leaves, List.flatMap_map, List.map_flatMap]
    exact List.flatMap_congr ih
  | not c ih => rw [map, leaves, leaves, ih]

theorem map_map {γ : Type} (f : α → β) (g : β → γ) (c : Condition κ α) :
    (c.map f).map g = c.map (g ∘ f) := by
  induction c with
  | atom a => simp [map]
  | relation op a b => simp [map]
  | inList a bs => simp [map]
  | between a low high => simp [map]
  | isNull negated a => simp [map]
  | and cs ih => simpa [map] using ih
  | or cs ih => simpa [map] using ih
  | not c ih => simp [map, ih]

theorem shape_and (cs : List (Condition κ α)) : (and cs).shape = .and (cs.map shape) := by
  rw [shape, map]
  rfl

theorem shape_or (cs : List (Condition κ α)) : (or cs).shape = .or (cs.map shape) := by
  rw [shape, map]
  rfl

theorem shape_not (c : Condition κ α) : (not c).shape = .not c.shape := by
  rw [shape, map]
  rfl

@[simp] theorem shape_map (f : α → β) (c : Condition κ α) : (c.map f).shape = c.shape := map_map ..

theorem length_leaves_of_shape {c : Condition κ α} {d : Condition κ β} (h : c.shape = d.shape) :
    c.leaves.length = d.leaves.length := by
  have hleaves : c.shape.leaves.length = d.shape.leaves.length := by rw [h]
  rwa [shape, shape, leaves_map, leaves_map, List.length_map, List.length_map] at hleaves

theorem members_eq {cs ds : List (Condition κ α)}
    (ih : ∀ c ∈ cs, ∀ d : Condition κ α, c.shape = d.shape → c.leaves = d.leaves → c = d)
    (hshape : cs.map shape = ds.map shape)
    (hleaves : cs.flatMap leaves = ds.flatMap leaves) : cs = ds := by
  induction cs generalizing ds with
  | nil =>
    cases ds with
    | nil => rfl
    | cons d ds => simp at hshape
  | cons c cs ihs =>
    cases ds with
    | nil => simp at hshape
    | cons d ds =>
      obtain ⟨hc, hcs⟩ := List.cons.inj hshape
      rw [List.flatMap_cons, List.flatMap_cons] at hleaves
      obtain ⟨hl, hls⟩ := List.append_inj hleaves (length_leaves_of_shape hc)
      rw [ih c (List.mem_cons_self ..) d hc hl,
        ihs (fun c hc => ih c (List.mem_cons_of_mem _ hc)) hcs hls]

/-- **A condition is its shape and its operands.** -/
theorem eq_of_shape_leaves (c d : Condition κ α) (hshape : c.shape = d.shape)
    (hleaves : c.leaves = d.leaves) : c = d := by
  induction c generalizing d with
  | atom a => cases d <;> simp_all [shape, map, leaves]
  | relation op a b => cases d <;> simp_all [shape, map, leaves]
  | inList a bs => cases d <;> simp_all [shape, map, leaves]
  | between a low high => cases d <;> simp_all [shape, map, leaves]
  | isNull negated a => cases d <;> simp_all [shape, map, leaves]
  | and cs ih =>
    cases d with
    | and ds =>
      rw [shape_and, shape_and, Condition.and.injEq] at hshape
      rw [members_eq ih hshape (by simpa [leaves] using hleaves)]
    | _ => simp [shape, map] at hshape
  | or cs ih =>
    cases d with
    | or ds =>
      rw [shape_or, shape_or, Condition.or.injEq] at hshape
      rw [members_eq ih hshape (by simpa [leaves] using hleaves)]
    | _ => simp [shape, map] at hshape
  | not c ih =>
    cases d with
    | not d =>
      rw [shape_not, shape_not, Condition.not.injEq] at hshape
      rw [ih d hshape (by simpa [leaves] using hleaves)]
    | _ => simp [shape, map] at hshape

/-! ## Truth -/

end Condition

/-- What a server makes of the values of the operands. -/
structure Meaning (κ V : Type) where
  relation : κ → V → V → Truth
  equals : κ
  atLeast : κ
  atMost : κ
  isNull : V → Bool
  /-- The truth of a call that is a condition. -/
  holds : V → Truth

namespace Condition

variable {κ α β V : Type}

def eval (M : Meaning κ V) (value : α → V) : Condition κ α → Truth
  | .atom a => M.holds (value a)
  | .relation op a b => M.relation op (value a) (value b)
  | .inList a bs => .any (bs.map fun b => M.relation M.equals (value a) (value b))
  | .between a low high =>
    (M.relation M.atLeast (value a) (value low)).and (M.relation M.atMost (value a) (value high))
  | .isNull negated a => .ofBool (negated != M.isNull (value a))
  | .and cs => .all (cs.map fun c => c.eval M value)
  | .or cs => .any (cs.map fun c => c.eval M value)
  | .not c => (c.eval M value).not

theorem eval_map (M : Meaning κ V) (f : α → β) (value : β → V) (c : Condition κ α) :
    (c.map f).eval M value = c.eval M (value ∘ f) := by
  induction c with
  | atom a => simp [map, eval]
  | relation op a b => simp [map, eval]
  | inList a bs => simp [map, eval, Function.comp_def]
  | between a low high => simp [map, eval]
  | isNull negated a => simp [map, eval]
  | and cs ih =>
    rw [map, eval, eval, List.map_map]
    exact congrArg Truth.all (List.map_congr_left ih)
  | or cs ih =>
    rw [map, eval, eval, List.map_map]
    exact congrArg Truth.any (List.map_congr_left ih)
  | not c ih => rw [map, eval, eval, ih]

/-- **Conditions of one shape whose operands have the same values are equally true.** -/
theorem eval_congr (M : Meaning κ V) {c : Condition κ α} {d : Condition κ β} {value : α → V}
    {value' : β → V} (hshape : c.shape = d.shape)
    (hleaves : c.leaves.map value = d.leaves.map value') : c.eval M value = d.eval M value' := by
  have h : c.map value = d.map value' := by
    refine eq_of_shape_leaves _ _ (by simpa using hshape) ?_
    rw [leaves_map, leaves_map, hleaves]
  have heval := congrArg (fun c => c.eval M id) h
  simpa [eval_map] using heval

end Condition

/-! ## Text -/

inductive Word (κ α : Type) where
  | left | right | comma | and | or | not | isIn | between | isNull | isNotNull
  | relation (op : κ)
  | operand (a : α)

namespace Word

variable {κ α : Type}

def isAnd : Word κ α → Bool
  | .and => Bool.true
  | _ => Bool.false

def isOr : Word κ α → Bool
  | .or => Bool.true
  | _ => Bool.false

/-- A word that ends the condition before it. -/
def isStop : Word κ α → Bool
  | .and | .or | .right => Bool.true
  | _ => Bool.false

/-- The operands of a text, in order. -/
def operands (ws : List (Word κ α)) : List α :=
  ws.filterMap fun w => match w with
    | .operand a => some a
    | _ => none

theorem operands_append (ws ws' : List (Word κ α)) :
    operands (ws ++ ws') = operands ws ++ operands ws' := List.filterMap_append

end Word

namespace Condition

variable {κ α : Type}

/-- Every group is in parentheses, also a group of one; a negation writes its own. -/
def print : Condition κ α → List (Word κ α)
  | .atom a => [.operand a]
  | .relation op a b => [.operand a, .relation op, .operand b]
  | .inList a bs =>
    [.operand a, .isIn, .left] ++ [Word.comma].intercalate (bs.map fun b => [.operand b]) ++ [.right]
  | .between a low high => [.operand a, .between, .operand low, .and, .operand high]
  | .isNull negated a => [.operand a, if negated then .isNotNull else .isNull]
  | .and cs => [.left] ++ [Word.and].intercalate (cs.map fun c => c.print) ++ [.right]
  | .or cs => [.left] ++ [Word.or].intercalate (cs.map fun c => c.print) ++ [.right]
  | .not c => [.not, .left] ++ c.print ++ [.right]

theorem print_and (cs : List (Condition κ α)) :
    (and cs).print = .left :: ([Word.and].intercalate (cs.map print) ++ [.right]) := by
  rw [print]
  rfl

theorem print_or (cs : List (Condition κ α)) :
    (or cs).print = .left :: ([Word.or].intercalate (cs.map print) ++ [.right]) := by
  rw [print]
  rfl

theorem print_not (c : Condition κ α) :
    (not c).print = .not :: .left :: (c.print ++ [.right]) := by
  rw [print]
  rfl

theorem operands_intercalate {sep : Word κ α} (hsep : Word.operands [sep] = [])
    (texts : List (List (Word κ α))) :
    Word.operands ([sep].intercalate texts) = texts.flatMap Word.operands := by
  induction texts with
  | nil => rfl
  | cons ws texts ih =>
    cases texts with
    | nil => simp
    | cons ws' texts =>
      rw [List.intercalate_cons_cons, Word.operands_append, Word.operands_append, hsep, ih]
      simp

/-- **The text writes the operands in their order.** -/
theorem operands_print (c : Condition κ α) : Word.operands c.print = c.leaves := by
  induction c with
  | atom a => simp [print, leaves, Word.operands]
  | relation op a b => simp [print, leaves, Word.operands]
  | inList a bs =>
    rw [print, leaves, Word.operands_append, Word.operands_append, operands_intercalate rfl]
    simp [Word.operands, List.flatMap_map]
  | between a low high => simp [print, leaves, Word.operands]
  | isNull negated a => cases negated <;> simp [print, leaves, Word.operands]
  | and cs ih =>
    rw [print_and, leaves, ← List.singleton_append, Word.operands_append, Word.operands_append,
      operands_intercalate rfl, List.flatMap_map, List.flatMap_congr ih]
    simp [Word.operands]
  | or cs ih =>
    rw [print_or, leaves, ← List.singleton_append, Word.operands_append, Word.operands_append,
      operands_intercalate rfl, List.flatMap_map, List.flatMap_congr ih]
    simp [Word.operands]
  | not c ih =>
    have happ : c.not.print = [Word.not, Word.left] ++ c.print ++ [Word.right] := by
      simp [print_not]
    rw [happ, leaves, Word.operands_append, Word.operands_append, ih]
    simp [Word.operands]

/-- No group and no list is empty. -/
def Grouped : Condition κ α → Prop
  | .inList _ bs => bs ≠ []
  | .and cs => cs ≠ [] ∧ ∀ c ∈ cs, c.Grouped
  | .or cs => cs ≠ [] ∧ ∀ c ∈ cs, c.Grouped
  | .not c => c.Grouped
  | _ => True

/-- A group of one is its member. -/
def regroup (build : List (Condition κ α) → Condition κ α) :
    List (Condition κ α) → Condition κ α
  | [c] => c
  | cs => build cs

def normal : Condition κ α → Condition κ α
  | .and cs => regroup .and (cs.map fun c => c.normal)
  | .or cs => regroup .or (cs.map fun c => c.normal)
  | .not c => .not c.normal
  | c => c

theorem eval_normal {V : Type} (M : Meaning κ V) (value : α → V) (c : Condition κ α) :
    c.normal.eval M value = c.eval M value := by
  induction c with
  | and cs ih =>
    have hall : Truth.all ((cs.map normal).map (eval M value)) = (and cs).eval M value := by
      rw [eval, List.map_map]
      exact congrArg Truth.all (List.map_congr_left ih)
    rw [← hall, normal]
    unfold regroup
    split
    next c hc => simp [hc]
    next => rw [eval]
  | or cs ih =>
    have hany : Truth.any ((cs.map normal).map (eval M value)) = (or cs).eval M value := by
      rw [eval, List.map_map]
      exact congrArg Truth.any (List.map_congr_left ih)
    rw [← hany, normal]
    unfold regroup
    split
    next c hc => simp [hc]
    next => rw [eval]
  | not c ih => rw [normal, eval, eval, ih]
  | _ => rw [normal] <;> simp

end Condition

/-! ## Reading -/

section Reading

variable {κ α : Type}

/-- `item (separator item)*`, at most `limit` items. -/
def chain {C : Type} (item : List (Word κ α) → Option (C × List (Word κ α)))
    (separates : Word κ α → Bool) :
    (limit : Nat) → List (Word κ α) → Option (List C × List (Word κ α))
  | 0, _ => none
  | limit + 1, ws =>
    (item ws).bind fun read =>
      match read.2 with
      | [] => some ([read.1], [])
      | w :: rest =>
        if separates w then
          (chain item separates limit rest).map fun more => (read.1 :: more.1, more.2)
        else some ([read.1], w :: rest)

/-- The operands of a list up to its closing parenthesis. -/
def listed : List (Word κ α) → Option (List α × List (Word κ α))
  | .operand b :: .right :: rest => some ([b], rest)
  | .operand b :: .comma :: rest => (listed rest).map fun more => (b :: more.1, more.2)
  | _ => none

def simple : List (Word κ α) → Option (Condition κ α × List (Word κ α))
  | .operand a :: .relation op :: .operand b :: rest => some (.relation op a b, rest)
  | .operand a :: .between :: .operand low :: .and :: .operand high :: rest =>
    some (.between a low high, rest)
  | .operand a :: .isIn :: .left :: rest =>
    (listed rest).map fun list => (.inList a list.1, list.2)
  | .operand a :: .isNull :: rest => some (.isNull false a, rest)
  | .operand a :: .isNotNull :: rest => some (.isNull true a, rest)
  | .operand a :: rest => some (.atom a, rest)
  | _ => none

/-- `NOT* (simple | (group))`. -/
def factor (group : List (Word κ α) → Option (Condition κ α × List (Word κ α))) :
    (limit : Nat) → List (Word κ α) → Option (Condition κ α × List (Word κ α))
  | 0, _ => none
  | limit + 1, .not :: rest => (factor group limit rest).map fun read => (.not read.1, read.2)
  | _ + 1, .left :: rest =>
    match group rest with
    | some (c, .right :: rest) => some (c, rest)
    | _ => none
  | _ + 1, ws => simple ws

def conjunction (group : List (Word κ α) → Option (Condition κ α × List (Word κ α)))
    (ws : List (Word κ α)) : Option (Condition κ α × List (Word κ α)) :=
  (chain (fun ws => factor group (ws.length + 1) ws) Word.isAnd ws.length ws).map
    fun read => (Condition.regroup .and read.1, read.2)

/-- A disjunction of conjunctions, parentheses nested at most `depth` deep. -/
def group : (depth : Nat) → List (Word κ α) → Option (Condition κ α × List (Word κ α))
  | 0, _ => none
  | depth + 1, ws =>
    (chain (conjunction (group depth)) Word.isOr ws.length ws).map
      fun read => (Condition.regroup .or read.1, read.2)

/-- The condition that the whole text is. -/
def read (ws : List (Word κ α)) : Option (Condition κ α) :=
  match group (ws.length + 1) ws with
  | some (c, []) => some c
  | _ => none

/-- What follows a condition ends it. -/
def Ends (rest : List (Word κ α)) : Prop := ∀ w ∈ rest.head?, w.isStop = true

theorem Ends.cons {w : Word κ α} {rest : List (Word κ α)} (h : w.isStop = true) :
    Ends (w :: rest) := by
  simpa [Ends] using h

theorem chain_intercalate {C γ : Type} {item : List (Word κ α) → Option (C × List (Word κ α))}
    {separates : Word κ α → Bool} {sep : Word κ α} {Q : List (Word κ α) → Prop}
    {text : γ → List (Word κ α)} {value : γ → C} (hsep : separates sep = true)
    (hQsep : ∀ rest, Q (sep :: rest)) (cs : List γ) (hne : cs ≠ [])
    (hitem : ∀ c ∈ cs, ∀ rest, Q rest → item (text c ++ rest) = some (value c, rest))
    {limit : Nat} (hlimit : cs.length ≤ limit) {rest : List (Word κ α)} (hrest : Q rest)
    (hstop : ∀ w ∈ rest.head?, separates w = false) :
    chain item separates limit ([sep].intercalate (cs.map text) ++ rest) =
      some (cs.map value, rest) := by
  induction cs generalizing limit with
  | nil => exact absurd rfl hne
  | cons c cs ih =>
    obtain ⟨limit, rfl⟩ : ∃ k, limit = k + 1 := ⟨limit - 1, by simp at hlimit; omega⟩
    cases cs with
    | nil =>
      rw [List.map_singleton, List.intercalate_singleton, chain,
        hitem c (List.mem_cons_self ..) rest hrest]
      cases rest with
      | nil => rfl
      | cons w rest => simp [hstop w (by simp)]
    | cons c' cs =>
      rw [List.map_cons, List.map_cons, List.intercalate_cons_cons, List.append_assoc,
        List.append_assoc, List.singleton_append, chain,
        hitem c (List.mem_cons_self ..) _ (hQsep _), ← List.map_cons]
      have hle : (c' :: cs).length ≤ limit := by simpa using hlimit
      have hmore := ih (List.cons_ne_nil _ _) (fun c hc => hitem c (List.mem_cons_of_mem _ hc)) hle
      simp only [List.map_cons] at hmore
      simp [hsep, hmore]

theorem length_le_intercalate {γ : Type} (sep : Word κ α) {text : γ → List (Word κ α)}
    (cs : List γ) (htext : ∀ c ∈ cs, 0 < (text c).length) :
    cs.length ≤ ([sep].intercalate (cs.map text)).length := by
  induction cs with
  | nil => simp
  | cons c cs ih =>
    have hc := htext c (List.mem_cons_self ..)
    have hcs := ih fun c hc => htext c (List.mem_cons_of_mem _ hc)
    cases cs with
    | nil =>
      rw [List.map_singleton, List.intercalate_singleton]
      exact hc
    | cons c' cs =>
      rw [List.map_cons, List.map_cons, List.intercalate_cons_cons, List.length_append,
        List.length_append, ← List.map_cons]
      simp only [List.length_cons, List.length_nil] at hcs ⊢
      omega

theorem length_print_le_intercalate (sep : Word κ α) {cs : List (Condition κ α)}
    {c : Condition κ α} (hc : c ∈ cs) :
    c.print.length ≤ ([sep].intercalate (cs.map Condition.print)).length := by
  induction cs with
  | nil => simp at hc
  | cons d cs ih =>
    cases cs with
    | nil =>
      obtain rfl := List.mem_singleton.1 hc
      simp
    | cons d' cs =>
      rw [List.map_cons, List.map_cons, List.intercalate_cons_cons, List.length_append,
        List.length_append, ← List.map_cons]
      rcases List.mem_cons.1 hc with rfl | hc
      · omega
      · have := ih hc
        omega

theorem listed_intercalate (bs : List α) (hne : bs ≠ []) (rest : List (Word κ α)) :
    listed ([Word.comma].intercalate (bs.map fun b => [Word.operand b]) ++ .right :: rest) =
      some (bs, rest) := by
  induction bs with
  | nil => exact absurd rfl hne
  | cons b bs ih =>
    cases bs with
    | nil => simp [listed]
    | cons b' bs =>
      have hmore := ih (List.cons_ne_nil _ _)
      rw [List.map_cons] at hmore
      rw [List.map_cons, List.map_cons, List.intercalate_cons_cons]
      simp only [List.cons_append, List.nil_append]
      rw [listed, hmore]
      rfl

theorem simple_atom (a : α) {rest : List (Word κ α)} (hrest : Ends rest) :
    simple (.operand a :: rest) = some (.atom a, rest) := by
  cases rest with
  | nil => rfl
  | cons w rest =>
    have hw : w.isStop = true := hrest w rfl
    cases w <;> simp [Word.isStop] at hw <;> rfl

theorem Condition.length_print_pos (c : Condition κ α) : 0 < c.print.length := by
  cases c <;> simp [Condition.print]

/-- **Factors with `AND` between them are one conjunction.** -/
theorem conjunction_intercalate {cs : List (Condition κ α)} (hne : cs ≠ []) {depth : Nat}
    (hcs : ∀ c ∈ cs, ∀ limit, c.print.length ≤ limit → ∀ rest, Ends rest →
      factor (group depth) limit (c.print ++ rest) = some (c.normal, rest))
    {rest : List (Word κ α)} (hrest : Ends rest) (hand : ∀ w ∈ rest.head?, w.isAnd = false) :
    conjunction (group depth) ([Word.and].intercalate (cs.map Condition.print) ++ rest) =
      some (.regroup .and (cs.map Condition.normal), rest) := by
  have hlength := length_le_intercalate .and cs fun c _ => c.length_print_pos
  have hitem : ∀ c ∈ cs, ∀ rest, Ends rest →
      factor (group depth) ((c.print ++ rest).length + 1) (c.print ++ rest) =
        some (c.normal, rest) := by
    intro c hmem rest hrest
    exact hcs c hmem _ (by rw [List.length_append]; omega) rest hrest
  have hlimit : cs.length ≤
      ([Word.and].intercalate (cs.map Condition.print) ++ rest).length := by
    rw [List.length_append]
    omega
  have hchain := @chain_intercalate κ α _ _
    (fun ws => factor (group depth) (ws.length + 1) ws) Word.isAnd .and Ends Condition.print
    Condition.normal rfl (fun rest => .cons rfl) cs hne hitem _ hlimit rest hrest hand
  rw [conjunction, hchain]
  rfl

/-- A conjunction of one. -/
theorem conjunction_one {c : Condition κ α} {depth : Nat}
    (hc : ∀ limit, c.print.length ≤ limit → ∀ rest, Ends rest →
      factor (group depth) limit (c.print ++ rest) = some (c.normal, rest))
    {rest : List (Word κ α)} (hrest : Ends rest) (hand : ∀ w ∈ rest.head?, w.isAnd = false) :
    conjunction (group depth) (c.print ++ rest) = some (c.normal, rest) := by
  have hone := conjunction_intercalate (List.cons_ne_nil c [])
    (List.forall_mem_singleton.2 hc) hrest hand
  rwa [List.map_singleton, List.intercalate_singleton] at hone

/-- A disjunction of one conjunction. -/
theorem group_one {depth : Nat} {ws rest : List (Word κ α)} {c : Condition κ α}
    (h : conjunction (group depth) ws = some (c, rest)) (hpos : 0 < ws.length)
    (hor : ∀ w ∈ rest.head?, w.isOr = false) : group (depth + 1) ws = some (c, rest) := by
  obtain ⟨limit, hlimit⟩ : ∃ k, ws.length = k + 1 := ⟨ws.length - 1, by omega⟩
  rw [group, hlimit, chain, h]
  cases rest with
  | nil => rfl
  | cons w rest => simp [hor w (by simp), Condition.regroup]

/-- **A printed condition is one factor of whatever text follows it.** -/
theorem factor_print (c : Condition κ α) (hc : c.Grouped) {depth : Nat}
    (hdepth : c.print.length ≤ depth) (limit : Nat) (hlimit : c.print.length ≤ limit)
    (rest : List (Word κ α)) (hrest : Ends rest) :
    factor (group depth) limit (c.print ++ rest) = some (c.normal, rest) := by
  induction c generalizing depth limit rest with
  | atom a =>
    obtain ⟨limit, rfl⟩ :=
      Nat.exists_eq_add_of_le' ((Condition.atom a).length_print_pos.trans_le hlimit)
    rw [Condition.print, Condition.normal]
    · exact simple_atom a hrest
    all_goals simp
  | relation op a b =>
    obtain ⟨limit, rfl⟩ :=
      Nat.exists_eq_add_of_le' ((Condition.relation op a b).length_print_pos.trans_le hlimit)
    simp [Condition.print, Condition.normal, factor, simple]
  | between a low high =>
    obtain ⟨limit, rfl⟩ :=
      Nat.exists_eq_add_of_le' ((Condition.between a low high).length_print_pos.trans_le hlimit)
    simp [Condition.print, Condition.normal, factor, simple]
  | isNull negated a =>
    obtain ⟨limit, rfl⟩ :=
      Nat.exists_eq_add_of_le' ((Condition.isNull negated a).length_print_pos.trans_le hlimit)
    cases negated <;> simp [Condition.print, Condition.normal, factor, simple]
  | inList a bs =>
    obtain ⟨limit, rfl⟩ :=
      Nat.exists_eq_add_of_le' ((Condition.inList a bs).length_print_pos.trans_le hlimit)
    rw [Condition.Grouped] at hc
    have hlisted := listed_intercalate bs hc rest
    simp [Condition.print, Condition.normal, factor, simple, hlisted]
  | and cs ih =>
    rw [Condition.Grouped] at hc
    rw [Condition.print_and, List.length_cons, List.length_append, List.length_singleton]
      at hdepth hlimit
    obtain ⟨limit, rfl⟩ : ∃ k, limit = k + 1 := ⟨limit - 1, by omega⟩
    obtain ⟨depth, rfl⟩ : ∃ k, depth = k + 1 := ⟨depth - 1, by omega⟩
    have hlength := length_le_intercalate .and cs fun c _ => c.length_print_pos
    have hnonempty := List.length_pos_of_ne_nil hc.1
    have hitems : ∀ c ∈ cs, ∀ limit, c.print.length ≤ limit → ∀ rest, Ends rest →
        factor (group depth) limit (c.print ++ rest) = some (c.normal, rest) := by
      intro c hmem limit hle rest hrest
      have := length_print_le_intercalate .and hmem
      exact ih c hmem (hc.2 c hmem) (by omega) limit hle rest hrest
    have hconjunction := conjunction_intercalate hc.1 hitems
      (show Ends (.right :: rest) from .cons rfl) (by simp [Word.isAnd])
    have hgroup := group_one hconjunction (by simp) (by simp [Word.isOr])
    rw [Condition.print_and, Condition.normal]
    simp only [List.append_assoc, List.cons_append, List.nil_append, factor]
    rw [hgroup]
  | or cs ih =>
    rw [Condition.Grouped] at hc
    rw [Condition.print_or, List.length_cons, List.length_append, List.length_singleton]
      at hdepth hlimit
    obtain ⟨limit, rfl⟩ : ∃ k, limit = k + 1 := ⟨limit - 1, by omega⟩
    obtain ⟨depth, rfl⟩ : ∃ k, depth = k + 1 := ⟨depth - 1, by omega⟩
    have hlength := length_le_intercalate .or cs fun c _ => c.length_print_pos
    have hitems : ∀ c ∈ cs, ∀ rest, Ends rest ∧ (∀ w ∈ rest.head?, w.isAnd = false) →
        conjunction (group depth) (c.print ++ rest) = some (c.normal, rest) := by
      intro c hmem rest hrest
      have hle := length_print_le_intercalate .or hmem
      exact conjunction_one (fun limit hlimit rest hrest =>
        ih c hmem (hc.2 c hmem) (by omega) limit hlimit rest hrest) hrest.1 hrest.2
    have hlong : cs.length ≤
        ([Word.or].intercalate (cs.map Condition.print) ++ .right :: rest).length := by
      rw [List.length_append]
      omega
    have hchain := @chain_intercalate κ α _ _ (conjunction (group depth)) Word.isOr .or
      (fun rest => Ends rest ∧ ∀ w ∈ rest.head?, w.isAnd = false) Condition.print
      Condition.normal rfl (fun rest => ⟨.cons rfl, by simp [Word.isAnd]⟩) cs hc.1 hitems _ hlong
      (.right :: rest) ⟨.cons rfl, by simp [Word.isAnd]⟩ (by simp [Word.isOr])
    rw [Condition.print_or, Condition.normal]
    simp only [List.append_assoc, List.cons_append, List.nil_append, factor]
    rw [group, hchain]
    rfl
  | not c ih =>
    rw [Condition.Grouped] at hc
    rw [Condition.print_not, List.length_cons, List.length_cons, List.length_append,
      List.length_singleton] at hdepth hlimit
    obtain ⟨limit, rfl⟩ : ∃ k, limit = k + 2 := ⟨limit - 2, by omega⟩
    obtain ⟨depth, rfl⟩ : ∃ k, depth = k + 1 := ⟨depth - 1, by omega⟩
    have hconjunction : conjunction (group depth) (c.print ++ .right :: rest) =
        some (c.normal, .right :: rest) :=
      conjunction_one (fun limit hlimit rest hrest =>
        ih hc (by omega) limit hlimit rest hrest) (.cons rfl) (by simp [Word.isAnd])
    have hgroup := group_one hconjunction (by simp) (by simp [Word.isOr])
    rw [Condition.print_not, Condition.normal]
    simp only [List.append_assoc, List.cons_append, List.nil_append, factor]
    rw [hgroup]
    rfl

/-- **A printed condition reads back as itself, up to groups of one.** -/
theorem read_print (c : Condition κ α) (hc : c.Grouped) : read c.print = some c.normal := by
  have hconjunction : conjunction (group c.print.length) (c.print ++ []) = some (c.normal, []) :=
    conjunction_one (fun limit hlimit rest hrest =>
      factor_print c hc (Nat.le_refl _) limit hlimit rest hrest) (by simp [Ends]) (by simp)
  have hgroup := group_one hconjunction (by simpa using c.length_print_pos) (by simp)
  rw [List.append_nil] at hgroup
  rw [read, hgroup]

end Reading

end Conditions

end Plenora.Lib
