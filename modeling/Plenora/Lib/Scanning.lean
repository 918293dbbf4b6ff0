import Mathlib

/-!
# Scanning a text

A step reads a piece off the front of a text and says which tokens it stands for;
`scan` takes steps until nothing is left.

    Reads step → scan step (c :: text) = (step (c :: text) >>= …)          (scan_cons)
-/

namespace Plenora.Lib.Scanning

variable {ε α τ ρ : Type}

/-! ## Algorithm -/

/-- A step: the tokens it reads, and what follows them. -/
abbrev Step (ε α τ : Type) := List α → Except ε (List τ × List α)

def scanWithin (step : Step ε α τ) : Nat → List α → Except ε (List τ)
  | 0, _ => .ok []
  | _, [] => .ok []
  | fuel + 1, c :: text => do
    let (tokens, rest) ← step (c :: text)
    let more ← scanWithin step fuel rest
    .ok (tokens ++ more)

/-- The tokens of a text. -/
def scan (step : Step ε α τ) (text : List α) : Except ε (List τ) :=
  scanWithin step text.length text

def visitedWithin (step : Step ε α τ) : Nat → List α → List (List α)
  | 0, _ => []
  | _, [] => []
  | fuel + 1, c :: text => (c :: text) :: match step (c :: text) with
    | .ok (_, rest) => visitedWithin step fuel rest
    | .error _ => []

/-- The texts at which a step of the scan is taken. -/
def visited (step : Step ε α τ) (text : List α) : List (List α) :=
  visitedWithin step text.length text

/-- The runs of tokens between separators, empty ones left out. -/
def splitAt (separates : τ → Bool) : List τ → List τ → List (List τ)
  | run, [] => if run = [] then [] else [run]
  | run, token :: tokens =>
    if separates token then
      if run = [] then splitAt separates [] tokens else run :: splitAt separates [] tokens
    else splitAt separates (run ++ [token]) tokens

/-! ## Every step reads -/

/-- A step leaves less than it was given. -/
def Reads (step : Step ε α τ) : Prop :=
  ∀ c text tokens rest, step (c :: text) = .ok (tokens, rest) → rest.length ≤ text.length

theorem scanWithin_eq {step : Step ε α τ} (h : Reads step) (fuel : Nat) (text : List α)
    (hfuel : text.length ≤ fuel) : scanWithin step fuel text = scan step text := by
  induction fuel using Nat.strong_induction_on generalizing text with
  | _ fuel ih =>
    cases text with
    | nil => cases fuel <;> rfl
    | cons c text =>
      cases fuel with
      | zero => exact absurd hfuel (Nat.not_succ_le_zero _)
      | succ fuel =>
        unfold scan
        rw [List.length_cons, scanWithin, scanWithin]
        cases hstep : step (c :: text) with
        | error e => rfl
        | ok read =>
          obtain ⟨tokens, rest⟩ := read
          have hrest := h c text tokens rest hstep
          have hlength : text.length ≤ fuel := Nat.le_of_succ_le_succ hfuel
          show (scanWithin step fuel rest >>= _) = (scanWithin step text.length rest >>= _)
          rw [ih fuel (Nat.lt_succ_self _) rest (hrest.trans hlength),
            ih text.length (Nat.lt_succ_of_le hlength) rest hrest]

@[simp] theorem scan_nil (step : Step ε α τ) : scan step [] = .ok [] := rfl

theorem scan_cons {step : Step ε α τ} (h : Reads step) (c : α) (text : List α) :
    scan step (c :: text) = (do
      let (tokens, rest) ← step (c :: text)
      let more ← scan step rest
      .ok (tokens ++ more)) := by
  unfold scan
  rw [List.length_cons, scanWithin]
  cases hstep : step (c :: text) with
  | error e => rfl
  | ok read =>
    obtain ⟨tokens, rest⟩ := read
    show (scanWithin step text.length rest >>= _) = _
    rw [scanWithin_eq h _ _ (h c text tokens rest hstep)]
    rfl

/-- A step that reads, then the scan of what it leaves. -/
theorem scan_step {step : Step ε α τ} (h : Reads step) {c : α} {text rest : List α}
    {tokens : List τ} (hstep : step (c :: text) = .ok (tokens, rest)) :
    scan step (c :: text) = (scan step rest).map (tokens ++ ·) := by
  rw [scan_cons h, hstep]
  show (scan step rest >>= _) = _
  cases scan step rest <;> rfl

theorem visitedWithin_eq {step : Step ε α τ} (h : Reads step) (fuel : Nat) (text : List α)
    (hfuel : text.length ≤ fuel) : visitedWithin step fuel text = visited step text := by
  induction fuel using Nat.strong_induction_on generalizing text with
  | _ fuel ih =>
    cases text with
    | nil => cases fuel <;> rfl
    | cons c text =>
      cases fuel with
      | zero => exact absurd hfuel (Nat.not_succ_le_zero _)
      | succ fuel =>
        unfold visited
        rw [List.length_cons, visitedWithin, visitedWithin]
        cases hstep : step (c :: text) with
        | error e => rfl
        | ok read =>
          obtain ⟨tokens, rest⟩ := read
          have hrest := h c text tokens rest hstep
          have hlength : text.length ≤ fuel := Nat.le_of_succ_le_succ hfuel
          show _ :: visitedWithin step fuel rest = _ :: visitedWithin step text.length rest
          rw [ih fuel (Nat.lt_succ_self _) rest (hrest.trans hlength),
            ih text.length (Nat.lt_succ_of_le hlength) rest hrest]

theorem visited_head (step : Step ε α τ) (c : α) (text : List α) :
    c :: text ∈ visited step (c :: text) := by
  unfold visited
  rw [List.length_cons, visitedWithin]
  exact List.mem_cons_self

/-- What is visited after a step is visited. -/
theorem visited_step {step : Step ε α τ} (h : Reads step) {c : α} {text rest : List α}
    {tokens : List τ} (hstep : step (c :: text) = .ok (tokens, rest)) {at_ : List α}
    (hat : at_ ∈ visited step rest) : at_ ∈ visited step (c :: text) := by
  unfold visited
  rw [List.length_cons, visitedWithin, hstep]
  refine List.mem_cons_of_mem _ ?_
  show at_ ∈ visitedWithin step text.length rest
  rw [visitedWithin_eq h _ _ (h c text tokens rest hstep)]
  exact hat

/-! ## Two readings of one text -/

theorem splitAt_run {separates : τ → Bool} {tokens : List τ}
    (h : ∀ t ∈ tokens, separates t = false) (run rest : List τ) :
    splitAt separates run (tokens ++ rest) = splitAt separates (run ++ tokens) rest := by
  induction tokens generalizing run with
  | nil => rw [List.nil_append, List.append_nil]
  | cons token tokens ih =>
    have htoken := h token List.mem_cons_self
    rw [List.cons_append, splitAt, if_neg (by rw [htoken]; decide),
      ih (fun t ht => h t (List.mem_cons_of_mem _ ht)), List.append_assoc, List.singleton_append]

theorem mem_splitAt {separates : τ → Bool} {run tokens piece : List τ}
    (h : piece ∈ splitAt separates run tokens) {t : τ} (ht : t ∈ piece) :
    t ∈ run ∨ (t ∈ tokens ∧ separates t = false) := by
  induction tokens generalizing run with
  | nil =>
    rw [splitAt] at h
    split at h
    next => cases h
    next => exact .inl (List.mem_singleton.1 h ▸ ht)
  | cons token tokens ih =>
    have hnext : (t ∈ ([] : List τ) ∨ (t ∈ tokens ∧ separates t = false)) →
        t ∈ run ∨ (t ∈ token :: tokens ∧ separates t = false) := by
      rintro (hnil | ⟨hmem, hkept⟩)
      · cases hnil
      · exact .inr ⟨List.mem_cons_of_mem _ hmem, hkept⟩
    rw [splitAt] at h
    split at h
    next =>
      split at h
      next => exact hnext (ih h)
      next =>
        rcases List.mem_cons.1 h with rfl | h
        · exact .inl ht
        · exact hnext (ih h)
    next hkept =>
      rcases ih h with hrun | ⟨hmem, hkept⟩
      · rcases List.mem_append.1 hrun with hrun | hlast
        · exact .inl hrun
        · cases List.mem_singleton.1 hlast
          exact .inr ⟨List.mem_cons_self, by simpa using hkept⟩
      · exact .inr ⟨List.mem_cons_of_mem _ hmem, hkept⟩

/-- Tokens that are rewritten one by one into runs with the same separators split alike. -/
theorem splitAt_flatMap {separates : τ → Bool} {separates' : ρ → Bool} {render : τ → List ρ}
    {P : τ → Prop}
    (hseparator : ∀ t, P t → separates t = true → ∃ s, render t = [s] ∧ separates' s = true)
    (htoken : ∀ t, P t → separates t = false →
      render t ≠ [] ∧ ∀ s ∈ render t, separates' s = false)
    {run tokens : List τ} (hrun : ∀ t ∈ run, P t) (htokens : ∀ t ∈ tokens, P t) :
    splitAt separates' (run.flatMap render) (tokens.flatMap render) =
      (splitAt separates run tokens).map (·.flatMap render) := by
  have hnil : ∀ run : List τ, (∀ t ∈ run, P t) → (run.flatMap render = [] ↔ run = []) := by
    intro run hrun
    refine ⟨fun h => ?_, fun h => by rw [h]; rfl⟩
    cases run with
    | nil => rfl
    | cons t run =>
      have ht := hrun t List.mem_cons_self
      rw [List.flatMap_cons, List.append_eq_nil_iff] at h
      cases hseparates : separates t with
      | true =>
        obtain ⟨s, hs, -⟩ := hseparator t ht hseparates
        rw [hs] at h
        cases h.1
      | false => exact absurd h.1 (htoken t ht hseparates).1
  induction tokens generalizing run with
  | nil =>
    rw [List.flatMap_nil, splitAt, splitAt]
    by_cases hempty : run = []
    · rw [if_pos hempty, if_pos ((hnil run hrun).2 hempty)]
      rfl
    · rw [if_neg hempty, if_neg (mt (hnil run hrun).1 hempty)]
      rfl
  | cons t tokens ih =>
    have ht := htokens t List.mem_cons_self
    have hrest : ∀ t ∈ tokens, P t := fun t ht => htokens t (List.mem_cons_of_mem _ ht)
    rw [List.flatMap_cons, splitAt]
    cases hseparates : separates t with
    | true =>
      obtain ⟨s, hs, hsep⟩ := hseparator t ht hseparates
      rw [hs, List.singleton_append, splitAt, if_pos hsep, if_pos rfl]
      have hnext := @ih [] (fun t ht => (by cases ht)) hrest
      rw [List.flatMap_nil] at hnext
      by_cases hempty : run = []
      · rw [if_pos hempty, if_pos ((hnil run hrun).2 hempty), hnext]
      · rw [if_neg hempty, if_neg (mt (hnil run hrun).1 hempty), hnext, List.map_cons]
    | false =>
      have hlonger : ∀ t' ∈ run ++ [t], P t' := by
        intro t' ht'
        rcases List.mem_append.1 ht' with hmem | hmem
        · exact hrun t' hmem
        · exact List.mem_singleton.1 hmem ▸ ht
      rw [splitAt_run (htoken t ht hseparates).2, if_neg (by decide), ← ih hlonger hrest,
        List.flatMap_append, List.flatMap_singleton]

/-- A run stops where the text after it does not go on with it. -/
theorem span_append {p : α → Bool} {after : List α} (h : after.head?.all (!p ·) = true)
    (text : List α) :
    (text ++ after).takeWhile p = text.takeWhile p ∧
      (text ++ after).dropWhile p = text.dropWhile p ++ after := by
  induction text with
  | nil =>
    cases after with
    | nil => exact ⟨rfl, rfl⟩
    | cons d after =>
      have hd : p d = false := by simpa using h
      simp [hd]
  | cons c text ih =>
    cases hc : p c with
    | true => simp [hc, ih.1, ih.2]
    | false => simp [hc]

end Plenora.Lib.Scanning
