import Plenora.Lib.JsonText
import Plenora.Lib.Outcome

/-!
# Strict JSON

`reject_repeated_keys` walks a document with a visitor that keeps the keys of every open
object.  The reader under it is not part of the repository: it refuses a document that is
too deep or has a number out of its range, and shows every other one to the visitor.

    visit inRange depth seen x = .error .repeatedKey → x.Found seen             (visit_spec)
-/

namespace Plenora.Core.StrictJson

open Plenora.Lib Plenora.Lib.Json

inductive Refusal where
  | repeatedKey
  /-- The reader's own refusals. -/
  | recursionLimit
  | number
  deriving DecidableEq, Repr

/-- The depth that is left inside an array or an object. -/
def enter (depth : Nat) : Except Refusal Nat := do
  failIf (depth - 1 = 0) .recursionLimit
  .ok (depth - 1)

/-- The visitor, under a reader that takes the scalars of `inRange`. -/
def visit (inRange : Text → Bool) : {kind : Kind} → Nat → List Text → Tree kind →
    Except Refusal Unit
  | _, _, _, .scalar raw => failIf (inRange raw = false) .number
  | _, _, _, .string _ => .ok ()
  | _, depth, _, .emptyArray _ => do
    let _ ← enter depth
    .ok ()
  | _, depth, _, .array all => do
    let depth ← enter depth
    visit inRange depth [] all
  | _, depth, _, .emptyObject _ => do
    let _ ← enter depth
    .ok ()
  | _, depth, _, .object all => do
    let depth ← enter depth
    visit inRange depth [] all
  | _, depth, _, .item _ v _ => visit inRange depth [] v
  | _, depth, _, .items _ v _ more => do
    visit inRange depth [] v
    visit inRange depth [] more
  | _, depth, seen, .member key v _ => do
    failIf (decode key.pieces ∈ seen) .repeatedKey
    visit inRange depth [] v
  | _, depth, seen, .members key v _ more => do
    failIf (decode key.pieces ∈ seen) .repeatedKey
    visit inRange depth [] v
    visit inRange depth (decode key.pieces :: seen) more

/-- `reject_repeated_keys`, under a reader that starts with this depth. -/
def rejectRepeatedKeys (inRange : Text → Bool) (depthLimit : Nat) (d : Document) :
    Except Refusal Unit :=
  visit inRange depthLimit [] d.value

/-- What an answer of the visitor says. -/
def Explains {kind : Kind} (inRange : Text → Bool) (depth : Nat) (seen : List Text)
    (x : Tree kind) : Except Refusal Unit → Prop
  | .ok () => ¬ x.Found seen
  | .error .repeatedKey => x.Found seen
  | .error .recursionLimit => depth ≤ x.depth
  | .error .number => ∃ raw ∈ x.scalars, inRange raw = false

theorem enter_eq (depth : Nat) :
    enter depth = if depth ≤ 1 then .error .recursionLimit else .ok (depth - 1) := by
  unfold enter
  by_cases h : depth ≤ 1
  · rw [if_pos h, failIf, if_pos (by omega)]
    rfl
  · rw [if_neg h, failIf_neg (by omega)]
    rfl

/-- Answers of two visits in a row. -/
theorem Explains.bind {a b c : Kind} {inRange : Text → Bool} {depth : Nat}
    {seen more all : List Text} {x : Tree a} {y : Tree b} {z : Tree c}
    {first second : Except Refusal Unit} (hx : Explains inRange depth seen x first)
    (hy : Explains inRange depth more y second) (hfound : z.Found all ↔ x.Found seen ∨ y.Found more)
    (hdepth : z.depth = max x.depth y.depth) (hscalars : z.scalars = x.scalars ++ y.scalars) :
    Explains inRange depth all z (first >>= fun _ => second) := by
  match first, hx with
  | .error .repeatedKey, hx => exact hfound.2 (.inl hx)
  | .error .recursionLimit, hx =>
    have hx : depth ≤ x.depth := hx
    show depth ≤ z.depth
    omega
  | .error .number, hx =>
    obtain ⟨raw, hraw, hrange⟩ := hx
    exact ⟨raw, hscalars ▸ List.mem_append_left _ hraw, hrange⟩
  | .ok (), hx =>
    match second, hy with
    | .ok (), hy => exact fun h => (hfound.1 h).elim hx hy
    | .error .repeatedKey, hy => exact hfound.2 (.inr hy)
    | .error .recursionLimit, hy =>
      have hy : depth ≤ y.depth := hy
      show depth ≤ z.depth
      omega
    | .error .number, hy =>
      obtain ⟨raw, hraw, hrange⟩ := hy
      exact ⟨raw, hscalars ▸ List.mem_append_right _ hraw, hrange⟩

/-- An answer about the parts is one about the whole. -/
theorem Explains.enter {a b : Kind} {inRange : Text → Bool} {depth : Nat} {seen all : List Text}
    {x : Tree a} {z : Tree b} {inside : Nat → Except Refusal Unit}
    (hx : Explains inRange (depth - 1) seen x (inside (depth - 1))) (hfound : z.Found all ↔ x.Found seen)
    (hdepth : z.depth = x.depth + 1) (hscalars : z.scalars = x.scalars) :
    Explains inRange depth all z (StrictJson.enter depth >>= inside) := by
  rw [enter_eq]
  split
  next h =>
    show depth ≤ z.depth
    omega
  next h =>
    rw [ok_bind]
    generalize inside (depth - 1) = visited at hx ⊢
    match visited, hx with
    | .ok (), hx => exact fun hz => hx (hfound.1 hz)
    | .error .repeatedKey, hx => exact hfound.2 hx
    | .error .recursionLimit, hx =>
      have hx : depth - 1 ≤ x.depth := hx
      show depth ≤ z.depth
      omega
    | .error .number, hx =>
      obtain ⟨raw, hraw, hrange⟩ := hx
      exact ⟨raw, hscalars ▸ hraw, hrange⟩

/-- **Every answer of the visitor says what it found.** -/
theorem visit_spec (inRange : Text → Bool) {kind : Kind} (x : Tree kind) (depth : Nat)
    (seen : List Text) (hseen : seen.Nodup) :
    Explains inRange depth seen x (visit inRange depth seen x) := by
  induction x generalizing depth seen with
  | scalar raw =>
    rw [visit]
    by_cases hraw : inRange raw = false
    · rw [failIf, if_pos hraw]
      exact ⟨raw, List.mem_singleton_self raw, hraw⟩
    · rw [failIf_neg hraw]
      exact Tree.not_repeatsKey_of_nil rfl
  | string pieces => exact Tree.not_repeatsKey_of_nil rfl
  | emptyArray spaces =>
    rw [visit]
    refine @Explains.enter _ _ _ _ [] seen (.string []) (.emptyArray spaces) _ ?_ Iff.rfl rfl rfl
    exact Tree.not_repeatsKey_of_nil rfl
  | array all ih =>
    rw [visit]
    exact Explains.enter (z := .array all) (ih (depth - 1) [] List.nodup_nil) Iff.rfl rfl rfl
  | emptyObject spaces =>
    rw [visit]
    refine @Explains.enter _ _ _ _ [] seen (.string []) (.emptyObject spaces) _ ?_ Iff.rfl rfl rfl
    exact Tree.not_repeatsKey_of_nil rfl
  | object all ih =>
    rw [visit]
    exact Explains.enter (z := .object all) (ih (depth - 1) [] List.nodup_nil)
      (Tree.found_object all).symm rfl rfl
  | item before v after ih => exact ih depth [] List.nodup_nil
  | items before v after more ihv ihmore =>
    exact (ihv depth [] List.nodup_nil).bind (ihmore depth [] List.nodup_nil)
      (Tree.repeatsKey_items before v after more) rfl rfl
  | member key v after ih =>
    have hfound := Tree.found_member hseen key v after
    rw [visit]
    by_cases hmem : decode key.pieces ∈ seen
    · rw [failIf, if_pos hmem]
      exact hfound.2 (.inl hmem)
    · rw [failIf_neg hmem, ok_bind]
      have hv := ih depth [] List.nodup_nil
      have hsame : (Tree.member key v after).Found seen ↔ v.Found [] :=
        hfound.trans (or_iff_right hmem)
      generalize visit inRange depth [] v = answer at hv ⊢
      cases answer with
      | ok => exact fun h => hv (hsame.1 h)
      | error e =>
        cases e with
        | repeatedKey => exact hsame.2 hv
        | recursionLimit => exact hv
        | number => exact hv
  | members key v after more ihv ihmore =>
    have hfound := @Tree.found_members seen key v after more
    rw [visit]
    by_cases hmem : decode key.pieces ∈ seen
    · rw [failIf, if_pos hmem]
      exact hfound.2 (.inl hmem)
    · rw [failIf_neg hmem, ok_bind]
      exact (ihv depth [] List.nodup_nil).bind
        (ihmore depth (decode key.pieces :: seen) (List.nodup_cons.2 ⟨hmem, hseen⟩))
        (hfound.trans (or_iff_right hmem)) rfl rfl

/-- **A rejection for a repeated key is one**, and nothing else is refused within the
limits of the reader. -/
theorem rejectRepeatedKeys_spec (inRange : Text → Bool) (depthLimit : Nat) (d : Document) :
    (rejectRepeatedKeys inRange depthLimit d = .error .repeatedKey → d.value.RepeatsKey) ∧
      (d.value.depth < depthLimit → (∀ raw ∈ d.value.scalars, inRange raw = true) →
        (rejectRepeatedKeys inRange depthLimit d = .error .repeatedKey ↔ d.value.RepeatsKey) ∧
          (rejectRepeatedKeys inRange depthLimit d = .ok () ↔ ¬ d.value.RepeatsKey)) := by
  have hspec := visit_spec inRange d.value depthLimit [] List.nodup_nil
  unfold rejectRepeatedKeys
  generalize visit inRange depthLimit [] d.value = answer at hspec ⊢
  match answer, hspec with
  | .ok (), hspec =>
    have hspec : ¬ d.value.RepeatsKey := hspec
    simp [hspec]
  | .error .repeatedKey, hspec =>
    have hspec : d.value.RepeatsKey := hspec
    simp [hspec]
  | .error .recursionLimit, hspec =>
    have hspec : depthLimit ≤ d.value.depth := hspec
    refine ⟨by simp, fun hdepth => ?_⟩
    omega
  | .error .number, hspec =>
    obtain ⟨raw, hraw, hrange⟩ := hspec
    refine ⟨by simp, fun _ hscalars => ?_⟩
    rw [hscalars raw hraw] at hrange
    cases hrange

end Plenora.Core.StrictJson
