import Plenora.Core.ProjjsonTokens

/-!
# What the PROJJSON validator accepts

The keys of an open object stand on top of the stack of keys, the first of them last; the run of a
value ends where its text ends, with the stacks as they were.

    nessunDoppione ks = some () ↔ (ks.map punti).Nodup                         (nessunDoppione_iff)
    valida hash t = some () ↔ ∃ v, IsDocument v t ∧ ¬ v.Repeats                (valida_iff)
-/

namespace Plenora.Core.Projjson

open Plenora.Lib Plenora.Lib.Json

/-! ## Keys -/

/-- The code points of a key. -/
def punti (k : Chiave) : List Nat := ((stringa k.posizione).map Prod.fst).getD []

/-- A key that was read, with the hash of its code points. -/
def Legge (hash : List Nat → UInt64) (k : Chiave) : Prop :=
  (stringa k.posizione).isSome ∧ k.impronta = hash (punti k)

theorem scorri_step {t rest : Text} {ps : List Nat} (h : scorri t = some (ps, rest)) :
    (ps = [] ∧ punto t = some (none, rest)) ∨
      ∃ n qs more, ps = n :: qs ∧ punto t = some (some n, more) ∧
        scorri more = some (qs, rest) := by
  rw [scorri] at h
  split at h
  next => cases h
  next hpunto =>
    cases h
    exact .inl ⟨rfl, hpunto⟩
  next n more hpunto =>
    obtain ⟨⟨qs, last⟩, hmore, heq⟩ := Option.map_eq_some_iff.1 h
    cases heq
    exact .inr ⟨n, qs, more, rfl, hpunto, hmore⟩

theorem stessiPunti_step {a b restA restB : Text} {pa pb : Option Nat}
    (ha : punto a = some (pa, restA)) (hb : punto b = some (pb, restB)) :
    stessiPunti a b = if pa ≠ pb then some false else if pa = none then some true
      else stessiPunti restA restB := by
  rw [stessiPunti]
  split
  next h => exact absurd (ha.symm.trans h) (by simp)
  next h =>
    cases ha.symm.trans h
    rw [hb]

theorem stessiPunti_eq {a b restA restB : Text} {ps qs : List Nat}
    (ha : scorri a = some (ps, restA)) (hb : scorri b = some (qs, restB)) :
    stessiPunti a b = some (decide (ps = qs)) := by
  induction ps generalizing a b qs with
  | nil =>
    rcases scorri_step ha with ⟨-, hpa⟩ | ⟨_, _, _, heq, -⟩
    · rcases scorri_step hb with ⟨rfl, hpb⟩ | ⟨n, qs, more, rfl, hpb, -⟩
      · rw [stessiPunti_step hpa hpb]
        rfl
      · rw [stessiPunti_step hpa hpb, if_pos (by simp)]
        rfl
    · cases heq
  | cons n ps ih =>
    rcases scorri_step ha with ⟨heq, -⟩ | ⟨_, _, moreA, heq, hpa, hrestA⟩
    · cases heq
    · cases heq
      rcases scorri_step hb with ⟨rfl, hpb⟩ | ⟨m, qs, moreB, rfl, hpb, hrestB⟩
      · rw [stessiPunti_step hpa hpb, if_pos (by simp)]
        rfl
      · rw [stessiPunti_step hpa hpb]
        by_cases hnm : n = m
        · rw [if_neg (by simp [hnm]), if_neg (by simp), ih hrestA hrestB, hnm]
          simp
        · rw [if_pos (by simp [hnm])]
          simp [hnm]

theorem stessoTesto_eq {hash : List Nat → UInt64} {k s : Chiave} (hk : Legge hash k)
    (hs : Legge hash s) :
    stessoTesto k.posizione s.posizione = some (decide (punti k = punti s)) := by
  obtain ⟨⟨ps, restK⟩, hstringaK⟩ := Option.isSome_iff_exists.1 hk.1
  obtain ⟨⟨qs, restS⟩, hstringaS⟩ := Option.isSome_iff_exists.1 hs.1
  unfold punti
  rw [hstringaK, hstringaS]
  obtain ⟨a, ha, hscorriA⟩ := Option.bind_eq_some_iff.1 hstringaK
  obtain ⟨b, hb, hscorriB⟩ := Option.bind_eq_some_iff.1 hstringaS
  unfold stessoTesto
  rw [ha, Option.bind_some, hb, Option.bind_some]
  exact stessiPunti_eq hscorriA hscorriB

theorem contro_iff {hash : List Nat → UInt64} {k : Chiave} (hk : Legge hash k)
    {ss : List Chiave} (hss : ∀ s ∈ ss, Legge hash s) :
    contro k ss = some () ↔ ∀ s ∈ ss, punti k ≠ punti s := by
  induction ss with
  | nil => simp [contro]
  | cons s ss ih =>
    obtain ⟨hs, hss⟩ := List.forall_mem_cons.1 hss
    rw [contro, stessoTesto_eq hk hs, Option.bind_some, List.forall_mem_cons]
    by_cases hsame : punti k = punti s
    · simp [hsame]
    · rw [if_neg (by simp [hsame]), ih hss]
      simp [hsame]

theorem confronti_iff {hash : List Nat → UInt64} {ks : List Chiave}
    (hks : ∀ k ∈ ks, Legge hash k) :
    confronti ks = some () ↔ ks.Pairwise fun k s => punti k ≠ punti s := by
  induction ks with
  | nil => simp [confronti]
  | cons k ks ih =>
    obtain ⟨hk, hks⟩ := List.forall_mem_cons.1 hks
    rw [List.pairwise_cons, ← contro_iff hk hks, ← ih hks, confronti, Option.bind_eq_some_iff]
    exact ⟨fun ⟨_, h, h'⟩ => ⟨h, h'⟩, fun ⟨h, h'⟩ => ⟨(), h, h'⟩⟩

/-- **In a sorted list the keys of one hash stand together.** -/
theorem gruppi_iff {hash : List Nat → UInt64} {ks : List Chiave}
    (hks : ∀ k ∈ ks, Legge hash k) (hsorted : ks.Pairwise fun a b => a.impronta ≤ b.impronta) :
    gruppi ks = some () ↔ ks.Pairwise fun k s => punti k ≠ punti s := by
  fun_induction gruppi ks with
  | case1 => simp
  | case2 k ks ih =>
    obtain ⟨hk, hrest⟩ := List.forall_mem_cons.1 hks
    obtain ⟨hle, hsortedRest⟩ := List.pairwise_cons.1 hsorted
    generalize hsame : ks.takeWhile (fun c => decide (c.impronta = k.impronta)) = same at ih ⊢
    generalize hother : ks.dropWhile (fun c => decide (c.impronta = k.impronta)) = other at ih ⊢
    have hsplit : ks = same ++ other := by
      rw [← hsame, ← hother, List.takeWhile_append_dropWhile]
    rw [hsplit] at hrest hsortedRest hle
    have hequal : ∀ c ∈ k :: same, c.impronta = k.impronta := by
      refine List.forall_mem_cons.2 ⟨rfl, fun c hc => ?_⟩
      rw [← hsame] at hc
      have hc' := List.mem_takeWhile_imp hc
      exact of_decide_eq_true hc'
    have hdiffer : ∀ c ∈ other, c.impronta ≠ k.impronta := by
      cases hcases : other with
      | nil => exact fun c hc => absurd hc List.not_mem_nil
      | cons d more =>
        have hd : d.impronta ≠ k.impronta := by
          have := List.head?_dropWhile_not (fun c => decide (c.impronta = k.impronta)) ks
          rw [hother, hcases] at this
          simpa using this
        have hpair := (List.pairwise_append.1 hsortedRest).2.1
        rw [hcases] at hpair
        refine List.forall_mem_cons.2 ⟨hd, fun c hc heq => hd (UInt64.le_antisymm ?_ ?_)⟩
        · rw [← heq]
          exact (List.pairwise_cons.1 hpair).1 c hc
        · exact hle d (List.mem_append_right _ (hcases ▸ List.mem_cons_self))
    have hsameLegge : ∀ c ∈ k :: same, Legge hash c :=
      List.forall_mem_cons.2 ⟨hk, fun c hc => hrest c (List.mem_append_left _ hc)⟩
    have hotherLegge : ∀ c ∈ other, Legge hash c := fun c hc =>
      hrest c (List.mem_append_right _ hc)
    have hih := ih hotherLegge (List.pairwise_append.1 hsortedRest).2.1
    rw [hsplit, ← List.cons_append, List.pairwise_append, ← confronti_iff hsameLegge, ← hih,
      Option.bind_eq_some_iff]
    constructor
    · rintro ⟨⟨⟩, hconfronti, hgruppi⟩
      refine ⟨hconfronti, hgruppi, fun a ha b hb heq => hdiffer b hb ?_⟩
      rw [(hotherLegge b hb).2, ← heq, ← (hsameLegge a ha).2, hequal a ha]
    · rintro ⟨hconfronti, hgruppi, -⟩
      exact ⟨(), hconfronti, hgruppi⟩

/-- **A repeated key is found whatever the hash.** -/
theorem nessunDoppione_iff {hash : List Nat → UInt64} {ks : List Chiave}
    (hks : ∀ k ∈ ks, Legge hash k) :
    nessunDoppione ks = some () ↔ (ks.map punti).Nodup := by
  have hperm := List.mergeSort_perm ks fun a b => decide (a.impronta ≤ b.impronta)
  have hsorted : (ks.mergeSort fun a b => decide (a.impronta ≤ b.impronta)).Pairwise
      fun a b => decide (a.impronta ≤ b.impronta) = true := by
    apply List.pairwise_mergeSort
    · intro a b c hab hbc
      rw [decide_eq_true_eq] at hab hbc ⊢
      exact UInt64.le_trans hab hbc
    · intro a b
      rw [Bool.or_eq_true, decide_eq_true_eq, decide_eq_true_eq]
      exact UInt64.le_total a.impronta b.impronta
  unfold nessunDoppione
  rw [gruppi_iff (fun k hk => hks k (hperm.mem_iff.1 hk))
    (hsorted.imp fun h => of_decide_eq_true h), ← (hperm.map punti).nodup_iff, List.Nodup,
    List.pairwise_map]

/-- The keys of an open object, its first key last. -/
structure Own (hash : List Nat → UInt64) (own : List Chiave) : Prop where
  legge : ∀ k ∈ own, Legge hash k
  first : ∃ others k, own = others ++ [k] ∧ (∀ s ∈ others, s.prima = false) ∧ k.prima = true

/-- Before a key is read: it is the first of its object, or the object has others. -/
def Awaits (hash : List Nat → UInt64) (own : List Chiave) (prima : Bool) : Prop :=
  (own = [] ∧ prima = true) ∨ (Own hash own ∧ prima = false)

theorem Awaits.own {hash : List Nat → UInt64} {own : List Chiave} {k : Chiave}
    (h : Awaits hash own k.prima) (hk : Legge hash k) : Own hash (k :: own) := by
  rcases h with ⟨rfl, hprima⟩ | ⟨hown, hprima⟩
  · exact ⟨List.forall_mem_singleton.2 hk, [], k, rfl, fun _ hs => absurd hs List.not_mem_nil,
      hprima⟩
  · obtain ⟨others, first, rfl, hothers, hfirst⟩ := hown.first
    exact ⟨List.forall_mem_cons.2 ⟨hk, hown.legge⟩, k :: others, first, rfl,
      List.forall_mem_cons.2 ⟨hprima, hothers⟩, hfirst⟩

theorem Own.findIdx {hash : List Nat → UInt64} {own : List Chiave} (h : Own hash own)
    (K : List Chiave) : ∃ i, (own ++ K).findIdx? (·.prima) = some i ∧
      (own ++ K).take (i + 1) = own ∧ (own ++ K).drop (i + 1) = K := by
  obtain ⟨others, first, rfl, hothers, hfirst⟩ := h.first
  refine ⟨others.length, ?_, ?_, ?_⟩
  · rw [List.findIdx?_eq_some_iff_getElem]
    refine ⟨by simp, by simpa using hfirst, fun j hj => ?_⟩
    have hlt : j < (others ++ [first]).length := by
      rw [List.length_append]
      omega
    have hlong : j < (others ++ [first] ++ K).length := by
      rw [List.length_append]
      omega
    have hget : (others ++ [first] ++ K)[j] = others[j] := by
      rw [List.getElem_append_left hlt, List.getElem_append_left hj]
    rw [hget, hothers _ (List.getElem_mem hj)]
    exact Bool.false_ne_true
  · exact List.take_left' (by simp)
  · exact List.drop_left' (by simp)

/-- **An object that ends releases its own keys.** -/
theorem chiudi_eq {hash : List Nat → UInt64} {own : List Chiave} (h : Own hash own)
    (K : List Chiave) (rest : Text) (G : List Bool) :
    chiudi rest G (own ++ K) =
      if (own.map punti).Nodup then .avanti ⟨.chiusura, rest, G, K⟩ else .malformato := by
  obtain ⟨i, hfind, htake, hdrop⟩ := h.findIdx K
  have hiff := nessunDoppione_iff h.legge
  unfold chiudi
  rw [hfind]
  dsimp only
  rw [htake, hdrop]
  by_cases hnodup : (own.map punti).Nodup
  · rw [if_pos hnodup, hiff.2 hnodup]
  · rw [if_neg hnodup]
    cases hdoppione : nessunDoppione own with
    | none => rfl
    | some u => exact absurd (hiff.1 hdoppione) hnodup

section Runs

variable (hash : List Nat → UInt64)

/-! ## One key -/

theorem chiave_quoted {marks : List Mark} {between : Text} (hmarks : ∀ m ∈ marks, m.WellFormed)
    (hbetween : IsSpace between) (text : Text) (K : List Chiave) (prima : Bool) :
    ∃ k, chiave hash (quoted marks ++ (between ++ ':' :: text)) K prima = some (text, k :: K) ∧
      k.prima = prima ∧ Legge hash k ∧ punti k = points marks := by
  have hstringa := stringa_quoted hmarks (between ++ ':' :: text)
  refine ⟨⟨hash (points marks), quoted marks ++ (between ++ ':' :: text), prima⟩, ?_, rfl, ?_, ?_⟩
  · unfold chiave impronta
    rw [hstringa, Option.map_some, Option.bind_some]
    dsimp only
    rw [spazi_append hbetween, spazi_cons (by decide), atteso, if_pos rfl]
    rfl
  · refine ⟨?_, ?_⟩
    · rw [hstringa]
      rfl
    · unfold punti
      rw [hstringa]
      rfl
  · unfold punti
    rw [hstringa]
    rfl

theorem atteso_sound {c : Char} {t rest : Text} (h : atteso c t = some rest) : t = c :: rest := by
  unfold atteso at h
  split at h
  next => cases h
  next =>
    split at h
    next hc =>
      cases h
      rw [hc]
    next => cases h

theorem chiave_sound {t rest : Text} {K K' : List Chiave} {prima : Bool}
    (h : chiave hash t K prima = some (rest, K')) :
    ∃ marks between k, (∀ m ∈ marks, Mark.WellFormed m) ∧ IsSpace between ∧
      t = quoted marks ++ (between ++ ':' :: rest) ∧ K' = k :: K ∧ k.prima = prima ∧
      Legge hash k ∧ punti k = points marks := by
  obtain ⟨⟨n, after⟩, himpronta, hcolon⟩ := Option.bind_eq_some_iff.1 h
  obtain ⟨last, hatteso, heq⟩ := Option.map_eq_some_iff.1 hcolon
  cases heq
  obtain ⟨⟨ps, more⟩, hstringa, heq⟩ := Option.map_eq_some_iff.1 himpronta
  cases heq
  obtain ⟨marks, hmarks, rfl, rfl⟩ := stringa_sound hstringa
  obtain ⟨between, hbetween, hsplit⟩ := spazi_split more
  have hmore : more = between ++ ':' :: rest := by
    rw [hsplit]
    exact congrArg (between ++ ·) (atteso_sound hatteso)
  subst hmore
  obtain ⟨k, hk, hprima, hlegge, hpunti⟩ := chiave_quoted hash hmarks hbetween rest K prima
  rw [hk] at h
  cases h
  exact ⟨marks, between, _, hmarks, hbetween, rfl, rfl, hprima, hlegge, hpunti⟩

/-! ## One turn -/

variable {hash}

theorem corri_eq (s : Stato) :
    corri hash s = match turno hash s with
      | .avanti s' => corri hash s'
      | .finito rest => some rest
      | .malformato => none := by
  rw [corri]
  split
  next h => rw [h]
  next h => rw [h]
  next h => rw [h]

theorem corri_avanti {s s' : Stato} (h : turno hash s = .avanti s') :
    corri hash s = corri hash s' := by rw [corri_eq, h]

theorem corri_congr {s s' : Stato} (h : turno hash s = turno hash s') :
    corri hash s = corri hash s' := by rw [corri_eq, corri_eq s', h]

/-- A run that ends goes on from this state, or has ended. -/
theorem corri_some {s : Stato} {out : Text} (h : corri hash s = some out) :
    (∃ s', turno hash s = .avanti s' ∧ corri hash s' = some out) ∨ turno hash s = .finito out := by
  rw [corri_eq] at h
  split at h
  next s' heq => exact .inl ⟨s', heq, h⟩
  next heq =>
    cases h
    exact .inr heq
  next => cases h

/-- Spaces before a value are skipped. -/
theorem corri_valore {t t' : Text} (h : spazi t = spazi t') (G : List Bool) (K : List Chiave) :
    corri hash ⟨.valore, t, G, K⟩ = corri hash ⟨.valore, t', G, K⟩ := by
  refine corri_congr ?_
  show turnoValore hash t G K = turnoValore hash t' G K
  unfold turnoValore
  rw [h]

theorem corri_scalare {t rest : Text} (h : saltaScalare (spazi t) = some (true, rest))
    (G : List Bool) (K : List Chiave) :
    corri hash ⟨.valore, t, G, K⟩ = corri hash ⟨.chiusura, rest, G, K⟩ := by
  refine corri_avanti ?_
  show turnoValore hash t G K = _
  unfold turnoValore
  rw [h]

/-- The bracket that opens a container of a kind. -/
def aperta (oggetto : Bool) : Char := if oggetto then '{' else '['

/-- A turn before an opening bracket. -/
theorem turno_aperta (oggetto : Bool) (dentro : Text) (G : List Bool) (K : List Chiave) :
    turno hash ⟨.valore, aperta oggetto :: dentro, G, K⟩ =
      if (spazi dentro).head? = some (chiusa oggetto) then
        .avanti ⟨.chiusura, (spazi dentro).drop 1, G, K⟩
      else apri hash oggetto (spazi dentro) G K := by
  show turnoValore hash (aperta oggetto :: dentro) G K = _
  have hspazi : spazi (aperta oggetto :: dentro) = aperta oggetto :: dentro :=
    spazi_cons (by cases oggetto <;> decide) _
  have hscalare : saltaScalare (aperta oggetto :: dentro) = some (false, aperta oggetto :: dentro) :=
    saltaScalare_container (by cases oggetto <;> decide) _
  unfold turnoValore
  rw [hspazi, hscalare]
  cases oggetto <;> rfl

theorem corri_vuoto (oggetto : Bool) {spaces : Text} (h : IsSpace spaces) (rest : Text)
    (G : List Bool) (K : List Chiave) :
    corri hash ⟨.valore, aperta oggetto :: (spaces ++ chiusa oggetto :: rest), G, K⟩ =
      corri hash ⟨.chiusura, rest, G, K⟩ := by
  have hspazi : spazi (spaces ++ chiusa oggetto :: rest) = chiusa oggetto :: rest := by
    rw [spazi_append h, spazi_cons (by cases oggetto <;> decide)]
  refine corri_avanti ?_
  rw [turno_aperta, hspazi]
  exact if_pos rfl

/-- A comma behind a value of a list. -/
theorem corri_virgola {after : Text} (h : IsSpace after) (rest : Text) (G : List Bool)
    (K : List Chiave) :
    corri hash ⟨.chiusura, after ++ ',' :: rest, false :: G, K⟩ =
      corri hash ⟨.valore, rest, false :: G, K⟩ := by
  refine corri_avanti ?_
  show turnoChiusura hash _ (false :: G) K = _
  unfold turnoChiusura
  dsimp only
  rw [spazi_append h, spazi_cons (by decide)]
  rfl

/-- A comma behind a value of an object, and the key behind it. -/
theorem corri_chiave {after rest text : Text} {K K' : List Chiave} (h : IsSpace after)
    (hchiave : chiave hash (spazi rest) K false = some (text, K')) (G : List Bool) :
    corri hash ⟨.chiusura, after ++ ',' :: rest, true :: G, K⟩ =
      corri hash ⟨.valore, text, true :: G, K'⟩ := by
  refine corri_avanti ?_
  show turnoChiusura hash _ (true :: G) K = _
  unfold turnoChiusura
  dsimp only
  rw [spazi_append h, spazi_cons (by decide)]
  dsimp only
  rw [if_pos rfl, if_pos rfl, hchiave]

/-- The end of a list. -/
theorem corri_lista {after : Text} (h : IsSpace after) (rest : Text) (G : List Bool)
    (K : List Chiave) :
    corri hash ⟨.chiusura, after ++ ']' :: rest, false :: G, K⟩ =
      corri hash ⟨.chiusura, rest, G, K⟩ := by
  refine corri_avanti ?_
  show turnoChiusura hash _ (false :: G) K = _
  unfold turnoChiusura
  dsimp only
  rw [spazi_append h, spazi_cons (by decide)]
  rfl

/-- The end of an object. -/
theorem corri_oggetto {after : Text} (h : IsSpace after) (rest : Text) (G : List Bool)
    {own : List Chiave} (hown : Own hash own) (hnodup : (own.map punti).Nodup) (K : List Chiave) :
    corri hash ⟨.chiusura, after ++ '}' :: rest, true :: G, own ++ K⟩ =
      corri hash ⟨.chiusura, rest, G, K⟩ := by
  refine corri_avanti ?_
  show turnoChiusura hash _ (true :: G) (own ++ K) = _
  unfold turnoChiusura
  dsimp only
  rw [spazi_append h, spazi_cons (by decide)]
  dsimp only
  rw [if_neg (by decide), if_pos ⟨rfl, rfl⟩, chiudi_eq hown, if_pos hnodup]

/-! ## A text of the grammar passes -/

theorem spazi_idem (t : Text) : spazi (spazi t) = spazi t := List.dropWhile_idempotent isSpace t

/-- What the run does with a phrase that repeats no key. -/
def Passes (hash : List Nat → UInt64) : Phrase → Text → Prop
  | .value v, t => ¬ v.Repeats → ∀ G K rest, Ends rest →
    corri hash ⟨.valore, t ++ rest, G, K⟩ = corri hash ⟨.chiusura, rest, G, K⟩
  | .items vs, t => (∀ v ∈ vs, ¬ v.Repeats) → ∀ G K rest,
    corri hash ⟨.valore, t ++ ']' :: rest, false :: G, K⟩ = corri hash ⟨.chiusura, rest, G, K⟩
  | .members ms, t => (∀ m ∈ ms, ¬ m.2.Repeats) → ∀ G own K rest prima, Awaits hash own prima →
    (own.map punti ++ ms.map Prod.fst).Nodup →
    ∃ text keys, chiave hash (spazi (t ++ '}' :: rest)) (own ++ K) prima = some (text, keys) ∧
      corri hash ⟨.valore, text, true :: G, keys⟩ = corri hash ⟨.chiusura, rest, G, K⟩
  | .rest v ms, t => ¬ v.Repeats → (∀ m ∈ ms, ¬ m.2.Repeats) → ∀ G own K rest, Own hash own →
    (own.map punti ++ ms.map Prod.fst).Nodup →
    corri hash ⟨.valore, t ++ '}' :: rest, true :: G, own ++ K⟩ =
      corri hash ⟨.chiusura, rest, G, K⟩

theorem corri_before {before : Text} (hbefore : IsSpace before) (t : Text) (G : List Bool)
    (K : List Chiave) :
    corri hash ⟨.valore, before ++ t, G, K⟩ = corri hash ⟨.valore, t, G, K⟩ :=
  corri_valore (spazi_append hbefore t) G K

theorem spazi_value {before body : Text} {v : Value} (hbefore : IsSpace before)
    (h : Spells (.value v) body) (rest : Text) :
    spazi (before ++ (body ++ rest)) = body ++ rest := by
  obtain ⟨c, more, rfl, hc, -⟩ := value_front h
  rw [spazi_append hbefore, List.cons_append, spazi_cons hc]

/-- What stands in a list that is not empty does not begin with its closing bracket. -/
theorem items_front {vs : List Value} {text : Text} (h : Spells (.items vs) text) (rest : Text) :
    (spazi (text ++ rest)).head? ≠ some ']' := by
  have hfront {before body : Text} {v : Value} (hbefore : IsSpace before)
      (hv : Spells (.value v) body) (more : Text) :
      (spazi (before ++ (body ++ more))).head? ≠ some ']' := by
    rw [spazi_value hbefore hv]
    obtain ⟨c, more', rfl, -, hc, -⟩ := value_front hv
    exact fun heq => hc (Option.some.inj heq)
  cases h with
  | one hbefore hv _ =>
    rw [List.append_assoc, List.append_assoc]
    exact hfront hbefore hv _
  | more hbefore hv _ _ =>
    rw [List.append_assoc, List.append_assoc]
    exact hfront hbefore hv _

theorem members_front {ms : List (List Nat × Value)} {text : Text}
    (h : Spells (.members ms) text) (rest : Text) :
    (spazi (text ++ rest)).head? ≠ some '}' := by
  cases h with
  | members hbefore =>
    rw [List.append_assoc, spazi_append hbefore, quoted, List.cons_append, List.cons_append,
      spazi_cons (by decide)]
    simp

/-- **The run of a phrase ends where its text ends.** -/
theorem passes_of_spells {phrase : Phrase} {t : Text} (h : Spells phrase t) :
    Passes hash phrase t := by
  induction h with
  | word hraw =>
    intro _ G K rest _
    refine corri_scalare ?_ G K
    have hscalare := saltaScalare_word hraw rest
    obtain ⟨c, more, rfl, hc, -⟩ := value_front (.word hraw)
    rwa [List.cons_append, spazi_cons hc]
  | number hraw =>
    intro _ G K rest hrest
    refine corri_scalare ?_ G K
    have hscalare := saltaScalare_number hraw hrest
    obtain ⟨c, more, rfl, hc, -⟩ := value_front (.number hraw)
    rwa [List.cons_append, spazi_cons hc]
  | string hmarks =>
    intro _ G K rest _
    refine corri_scalare ?_ G K
    have hscalare := saltaScalare_string hmarks rest
    rw [quoted, List.cons_append] at hscalare ⊢
    rwa [spazi_cons (by decide)]
  | emptyArray hspaces =>
    intro _ G K rest _
    rw [List.cons_append, List.append_assoc]
    exact corri_vuoto false hspaces rest G K
  | @array items text hitems ih =>
    intro hnot G K rest _
    have hitemsNot : ∀ v ∈ items, ¬ v.Repeats := fun v hv hrepeats => hnot (.item hv hrepeats)
    have hturno : turno hash ⟨.valore, '[' :: (text ++ ']' :: rest), G, K⟩ =
        .avanti ⟨.valore, spazi (text ++ ']' :: rest), false :: G, K⟩ :=
      (turno_aperta false _ G K).trans (if_neg (items_front hitems _))
    rw [List.cons_append, List.append_assoc, List.singleton_append, corri_avanti hturno,
      corri_valore (spazi_idem _), ih hitemsNot]
  | emptyObject hspaces =>
    intro _ G K rest _
    rw [List.cons_append, List.append_assoc]
    exact corri_vuoto true hspaces rest G K
  | @object members text hmembers ih =>
    intro hnot G K rest _
    have hmembersNot : ∀ m ∈ members, ¬ m.2.Repeats := fun m hm hrepeats =>
      hnot (.member hm hrepeats)
    have hkeys : (members.map Prod.fst).Nodup := by
      by_contra hdup
      exact hnot (.key hdup)
    obtain ⟨text', keys, hchiave, hcorri⟩ :=
      ih hmembersNot G [] K rest true (.inl ⟨rfl, rfl⟩) hkeys
    have hturno : turno hash ⟨.valore, '{' :: (text ++ '}' :: rest), G, K⟩ =
        .avanti ⟨.valore, text', true :: G, keys⟩ := by
      refine ((turno_aperta true _ G K).trans (if_neg (members_front hmembers _))).trans ?_
      unfold apri
      rw [if_pos rfl, show chiave hash _ K true = _ from hchiave]
    rw [List.cons_append, List.append_assoc, List.singleton_append, corri_avanti hturno, hcorri]
  | @one before text after v hbefore hv hafter ih =>
    intro hnot G K rest
    have hvNot : ¬ v.Repeats := hnot v List.mem_cons_self
    rw [List.append_assoc, List.append_assoc, corri_before hbefore,
      ih hvNot _ _ _ (ends_append hafter (ends_cons (by simp) _)), corri_lista hafter]
  | @more before text after others v items hbefore hv hafter hitems ih ihItems =>
    intro hnot G K rest
    obtain ⟨hvNot, hitemsNot⟩ := List.forall_mem_cons.1 hnot
    rw [List.append_assoc, List.append_assoc, List.append_assoc, List.cons_append,
      corri_before hbefore, ih hvNot _ _ _ (ends_append hafter (ends_cons (by simp) _)),
      corri_virgola hafter, ihItems hitemsNot]
  | @members before between text marks v members hbefore hmarks hbetween hrest ih =>
    intro hnot G own K rest prima hawaits hnodup
    obtain ⟨hvNot, hmembersNot⟩ := List.forall_mem_cons.1 hnot
    obtain ⟨k, hchiave, hprima, hlegge, hpunti⟩ :=
      chiave_quoted hash hmarks hbetween (text ++ '}' :: rest) (own ++ K) prima
    have hspazi : spazi (before ++ (quoted marks ++ (between ++ ':' :: text)) ++ '}' :: rest) =
        quoted marks ++ (between ++ ':' :: (text ++ '}' :: rest)) := by
      simp only [List.append_assoc, List.cons_append]
      rw [spazi_append hbefore, quoted, List.cons_append, spazi_cons (by decide)]
    refine ⟨text ++ '}' :: rest, k :: (own ++ K), by rw [hspazi, hchiave], ?_⟩
    have hown : Own hash (k :: own) := Awaits.own (hprima ▸ hawaits) hlegge
    have hperm : ((k :: own).map punti ++ members.map Prod.fst).Perm
        (own.map punti ++ (points marks :: members.map Prod.fst)) := by
      rw [List.map_cons, hpunti, List.cons_append]
      exact List.perm_middle.symm
    exact ih hvNot hmembersNot G (k :: own) K rest hown (hperm.nodup_iff.2 hnodup)
  | @last before text after v hbefore hv hafter ih =>
    intro hvNot _ G own K rest hown hnodup
    rw [List.map_nil, List.append_nil] at hnodup
    rw [List.append_assoc, List.append_assoc, corri_before hbefore,
      ih hvNot _ _ _ (ends_append hafter (ends_cons (by simp) _)),
      corri_oggetto hafter rest G hown hnodup]
  | @next before text after others v members hbefore hv hafter hmembers ih ihMembers =>
    intro hvNot hmembersNot G own K rest hown hnodup
    obtain ⟨text', keys, hchiave, hcorri⟩ :=
      ihMembers hmembersNot G own K rest false (.inr ⟨hown, rfl⟩) hnodup
    rw [List.append_assoc, List.append_assoc, List.append_assoc, List.cons_append,
      corri_before hbefore, ih hvNot _ _ _ (ends_append hafter (ends_cons (by simp) _)),
      corri_chiave hafter hchiave, hcorri]

/-! ## What passes is a text of the grammar -/

/-- An accepting run from a state where a value is due reads a value, or what is left of a list or
of an object. -/
structure Accepts (hash : List Nat → UInt64) (t : Text) : Prop where
  value : ∀ G K out, corri hash ⟨.valore, t, G, K⟩ = some out →
    ∃ before v body rest, IsSpace before ∧ t = before ++ (body ++ rest) ∧
      Spells (.value v) body ∧ ¬ v.Repeats ∧ corri hash ⟨.chiusura, rest, G, K⟩ = some out
  items : ∀ G K out, corri hash ⟨.valore, t, false :: G, K⟩ = some out →
    ∃ vs body rest, t = body ++ ']' :: rest ∧ Spells (.items vs) body ∧
      (∀ v ∈ vs, ¬ Value.Repeats v) ∧ corri hash ⟨.chiusura, rest, G, K⟩ = some out
  rest : ∀ G own K out, Own hash own → corri hash ⟨.valore, t, true :: G, own ++ K⟩ = some out →
    ∃ v ms body rest, t = body ++ '}' :: rest ∧ Spells (.rest v ms) body ∧ ¬ v.Repeats ∧
      (∀ m ∈ ms, ¬ Value.Repeats m.2) ∧ (own.map punti ++ ms.map Prod.fst).Nodup ∧
      corri hash ⟨.chiusura, rest, G, K⟩ = some out

/-- How a container goes on behind a value. -/
theorem chiusura_cases {t : Text} {oggetto : Bool} {G : List Bool} {K : List Chiave} {out : Text}
    (h : corri hash ⟨.chiusura, t, oggetto :: G, K⟩ = some out) :
    ∃ after, IsSpace after ∧
      ((∃ rest, t = after ++ ',' :: rest ∧ oggetto = false ∧
        corri hash ⟨.valore, rest, false :: G, K⟩ = some out) ∨
      (∃ rest text K', t = after ++ ',' :: rest ∧ oggetto = true ∧
        chiave hash (spazi rest) K false = some (text, K') ∧
        corri hash ⟨.valore, text, true :: G, K'⟩ = some out) ∨
      (∃ rest, t = after ++ ']' :: rest ∧ oggetto = false ∧
        corri hash ⟨.chiusura, rest, G, K⟩ = some out) ∨
      ∃ rest s, t = after ++ '}' :: rest ∧ oggetto = true ∧ chiudi rest G K = .avanti s ∧
        corri hash s = some out) := by
  obtain ⟨after, hafter, hsplit⟩ := spazi_split t
  refine ⟨after, hafter, ?_⟩
  rcases corri_some h with ⟨s, hturno, hcorri⟩ | hturno
  · change turnoChiusura hash t (oggetto :: G) K = _ at hturno
    unfold turnoChiusura at hturno
    dsimp only at hturno
    split at hturno
    next => cases hturno
    next c rest hrest =>
      rw [hrest] at hsplit
      split at hturno
      next hc =>
        subst hc
        split at hturno
        next hoggetto =>
          split at hturno
          next text K' hchiave =>
            cases hturno
            refine .inr (.inl ⟨rest, text, K', hsplit, hoggetto, hchiave, ?_⟩)
            rwa [hoggetto] at hcorri
          next => cases hturno
        next hoggetto =>
          cases hturno
          rw [Bool.not_eq_true] at hoggetto
          refine .inl ⟨rest, hsplit, hoggetto, ?_⟩
          rwa [hoggetto] at hcorri
      next =>
      split at hturno
      next hc => exact .inr (.inr (.inr ⟨rest, s, hc.1 ▸ hsplit, hc.2, hturno, hcorri⟩))
      next =>
      split at hturno
      next hc =>
        cases hturno
        exact .inr (.inr (.inl ⟨rest, hc.1 ▸ hsplit, by simpa using hc.2, hcorri⟩))
      next => cases hturno
  · change turnoChiusura hash t (oggetto :: G) K = _ at hturno
    unfold turnoChiusura at hturno
    dsimp only at hturno
    split at hturno
    next => cases hturno
    next =>
      split at hturno
      next =>
        split at hturno
        next => split at hturno <;> cases hturno
        next => cases hturno
      next =>
      split at hturno
      next =>
        unfold chiudi at hturno
        split at hturno
        next => cases hturno
        next => split at hturno <;> cases hturno
      next => split at hturno <;> cases hturno

/-- How a value begins. -/
theorem valore_cases {t : Text} {G : List Bool} {K : List Chiave} {out : Text}
    (h : corri hash ⟨.valore, t, G, K⟩ = some out) :
    (∃ rest, saltaScalare (spazi t) = some (true, rest) ∧
      corri hash ⟨.chiusura, rest, G, K⟩ = some out) ∨
    ∃ oggetto dentro, spazi t = aperta oggetto :: dentro ∧
      ((∃ rest, spazi dentro = chiusa oggetto :: rest ∧
        corri hash ⟨.chiusura, rest, G, K⟩ = some out) ∨
      ∃ s, apri hash oggetto (spazi dentro) G K = .avanti s ∧ corri hash s = some out) := by
  cases hscalare : saltaScalare (spazi t) with
  | none =>
    rw [corri_eq] at h
    have hturno : turno hash ⟨.valore, t, G, K⟩ = .malformato := by
      show turnoValore hash t G K = _
      unfold turnoValore
      rw [hscalare]
    rw [hturno] at h
    cases h
  | some r =>
    obtain ⟨b, rest⟩ := r
    cases b with
    | true =>
      rw [corri_scalare hscalare] at h
      exact .inl ⟨rest, rfl, h⟩
    | false =>
      obtain ⟨-, c, dentro, hspazi, hc⟩ := saltaScalare_false hscalare
      obtain ⟨oggetto, rfl⟩ : ∃ oggetto, c = aperta oggetto := by
        rcases hc with rfl | rfl
        · exact ⟨true, rfl⟩
        · exact ⟨false, rfl⟩
      refine .inr ⟨oggetto, dentro, hspazi, ?_⟩
      rw [corri_valore ((spazi_idem t).symm.trans (congrArg spazi hspazi)), corri_eq,
        turno_aperta] at h
      by_cases hhead : (spazi dentro).head? = some (chiusa oggetto)
      · obtain ⟨more, hmore⟩ := List.head?_eq_some_iff.1 hhead
        rw [if_pos hhead, hmore] at h
        exact .inl ⟨more, hmore, h⟩
      · rw [if_neg hhead] at h
        split at h
        next s hs => exact .inr ⟨s, hs, h⟩
        next hs =>
          unfold apri at hs
          split at hs
          · split at hs <;> cases hs
          · cases hs
        next => cases h

/-- A list or an object whose bracket has been read. -/
theorem apri_sound {oggetto : Bool} {t : Text} {G : List Bool} {K : List Chiave} {s : Stato}
    (h : apri hash oggetto t G K = .avanti s) :
    (oggetto = false ∧ s = ⟨.valore, t, false :: G, K⟩) ∨
      ∃ text K', oggetto = true ∧ chiave hash t K true = some (text, K') ∧
        s = ⟨.valore, text, true :: G, K'⟩ := by
  unfold apri at h
  split at h
  next hoggetto =>
    split at h
    next text K' hchiave =>
      cases h
      exact .inr ⟨text, K', hoggetto, hchiave, rfl⟩
    next => cases h
  next hoggetto =>
    cases h
    exact .inl ⟨by simpa using hoggetto, rfl⟩

/-- The members from the first key of an object on, or from one behind a comma. -/
theorem members_of_rest {t text : Text} {own : List Chiave} {K K' : List Chiave} {prima : Bool}
    {G : List Bool} {out : Text} (hawaits : Awaits hash own prima)
    (hchiave : chiave hash (spazi t) (own ++ K) prima = some (text, K'))
    (hcorri : corri hash ⟨.valore, text, true :: G, K'⟩ = some out)
    (haccepts : Accepts hash text) :
    ∃ ms body rest, t = body ++ '}' :: rest ∧ Spells (.members ms) body ∧
      (∀ m ∈ ms, ¬ Value.Repeats m.2) ∧ (own.map punti ++ ms.map Prod.fst).Nodup ∧
      corri hash ⟨.chiusura, rest, G, K⟩ = some out := by
  obtain ⟨before, hbefore, hsplit⟩ := spazi_split t
  obtain ⟨marks, between, k, hmarks, hbetween, hspazi, rfl, hprima, hlegge, hpunti⟩ :=
    chiave_sound hash hchiave
  have hown : Own hash (k :: own) := Awaits.own (hprima ▸ hawaits) hlegge
  obtain ⟨v, ms, body, rest, rfl, hbody, hv, hms, hnodup, hout⟩ :=
    haccepts.rest G (k :: own) K out hown hcorri
  refine ⟨(points marks, v) :: ms, before ++ (quoted marks ++ (between ++ ':' :: body)), rest, ?_,
    .members hbefore hmarks hbetween hbody, List.forall_mem_cons.2 ⟨hv, hms⟩, ?_, hout⟩
  · rw [hsplit, hspazi]
    simp
  · rw [List.map_cons, hpunti, List.cons_append] at hnodup
    exact List.perm_middle.nodup_iff.2 hnodup

/-- **An accepting run has read a text of the grammar.** -/
theorem accepts (t : Text) : Accepts hash t := by
  induction hn : t.length using Nat.strong_induction_on generalizing t with
  | h n ih =>
    subst hn
    have hvalue : ∀ G K out, corri hash ⟨.valore, t, G, K⟩ = some out →
        ∃ before v body rest, IsSpace before ∧ t = before ++ (body ++ rest) ∧
          Spells (.value v) body ∧ ¬ v.Repeats ∧
          corri hash ⟨.chiusura, rest, G, K⟩ = some out := by
      intro G K out h
      obtain ⟨before, hbefore, hsplit⟩ := spazi_split t
      rcases valore_cases h with ⟨rest, hscalare, hcorri⟩ | ⟨oggetto, dentro, hspazi, hinside⟩
      · obtain ⟨v, body, heq, hbody, hv⟩ := saltaScalare_sound hscalare
        exact ⟨before, v, body, rest, hbefore, heq ▸ hsplit, hbody, hv, hcorri⟩
      · obtain ⟨spaces, hspaces, hdentro⟩ := spazi_split dentro
        rw [hspazi] at hsplit
        have hlt : dentro.length < t.length := by
          rw [hsplit, List.length_append, List.length_cons]
          omega
        rcases hinside with ⟨rest, hchiusa, hcorri⟩ | ⟨s, happi, hcorri⟩
        · rw [hchiusa] at hdentro
          have htext : t = before ++ ((aperta oggetto :: (spaces ++ [chiusa oggetto])) ++ rest) := by
            rw [hsplit, hdentro]
            simp
          cases oggetto with
          | false => exact ⟨before, .array [], _, rest, hbefore, htext, .emptyArray hspaces,
              not_repeats_array_nil, hcorri⟩
          | true => exact ⟨before, .object [], _, rest, hbefore, htext, .emptyObject hspaces,
              not_repeats_object_nil, hcorri⟩
        · rcases apri_sound happi with ⟨rfl, rfl⟩ | ⟨text, K', rfl, hchiave, rfl⟩
          · rw [corri_valore (spazi_idem dentro)] at hcorri
            obtain ⟨vs, body, rest, rfl, hbody, hvs, hout⟩ :=
              (ih _ hlt dentro rfl).items G K out hcorri
            refine ⟨before, .array vs, '[' :: (body ++ [']']), rest, hbefore, ?_, .array hbody,
              ?_, hout⟩
            · rw [hsplit]
              simp [aperta]
            · intro hrepeats
              cases hrepeats with
              | item hmem hv => exact hvs _ hmem hv
          · have htext : text.length < dentro.length :=
              Nat.lt_of_lt_of_le (chiave_lt hash hchiave) (spazi_le dentro)
            have hfirst : chiave hash (spazi dentro) ([] ++ K) true = some (text, K') := hchiave
            obtain ⟨ms, body, rest, rfl, hbody, hms, hnodup, hout⟩ :=
              members_of_rest (.inl ⟨rfl, rfl⟩) hfirst hcorri
                (ih _ (Nat.lt_trans htext hlt) text rfl)
            refine ⟨before, .object ms, '{' :: (body ++ ['}']), rest, hbefore, ?_, .object hbody,
              ?_, hout⟩
            · rw [hsplit]
              simp [aperta]
            · intro hrepeats
              cases hrepeats with
              | key hkeys => exact hkeys hnodup
              | member hmem hm => exact hms _ hmem hm
    have hshorter {before body rest : Text} {v : Value} (ht : t = before ++ (body ++ rest))
        (hbody : Spells (.value v) body) : rest.length < t.length := by
      obtain ⟨c, more, rfl, -⟩ := value_front hbody
      rw [ht, List.length_append, List.length_append, List.length_cons]
      omega
    refine ⟨hvalue, ?_, ?_⟩
    · intro G K out h
      obtain ⟨before, v, body, rest, hbefore, ht, hbody, hv, hcorri⟩ := hvalue _ _ _ h
      have hlt := hshorter ht hbody
      obtain ⟨after, hafter, ⟨more, rfl, -, hmore⟩ | ⟨_, _, _, -, hfalse, -⟩ |
        ⟨more, rfl, -, hmore⟩ | ⟨_, _, -, hfalse, -⟩⟩ := chiusura_cases hcorri
      · have hmoreLt : more.length < t.length := by
          rw [List.length_append, List.length_cons] at hlt
          omega
        obtain ⟨vs, others, last, rfl, hothers, hvs, hout⟩ :=
          (ih _ hmoreLt more rfl).items G K out hmore
        refine ⟨v :: vs, _, last, ?_, .more hbefore hbody hafter hothers,
          List.forall_mem_cons.2 ⟨hv, hvs⟩, hout⟩
        rw [ht]
        simp
      · cases hfalse
      · refine ⟨[v], _, more, ?_, .one hbefore hbody hafter, List.forall_mem_singleton.2 hv, hmore⟩
        rw [ht]
        simp
      · cases hfalse
    · intro G own K out hown h
      obtain ⟨before, v, body, rest, hbefore, ht, hbody, hv, hcorri⟩ := hvalue _ _ _ h
      have hlt := hshorter ht hbody
      obtain ⟨after, hafter, ⟨_, -, hfalse, -⟩ | ⟨more, text, K', rfl, -, hchiave, hmore⟩ |
        ⟨_, -, hfalse, -⟩ | ⟨more, s, rfl, -, hchiudi, hmore⟩⟩ := chiusura_cases hcorri
      · cases hfalse
      · have htextLt : text.length < t.length := by
          have := chiave_lt hash hchiave
          have := spazi_le more
          rw [List.length_append, List.length_cons] at hlt
          omega
        obtain ⟨ms, others, last, rfl, hothers, hms, hnodup, hout⟩ :=
          members_of_rest (.inr ⟨hown, rfl⟩) hchiave hmore (ih _ htextLt text rfl)
        refine ⟨v, ms, _, last, ?_, .next hbefore hbody hafter hothers, hv, hms, hnodup, hout⟩
        rw [ht]
        simp
      · cases hfalse
      · rw [chiudi_eq hown] at hchiudi
        split at hchiudi
        next hnodup =>
          cases hchiudi
          refine ⟨v, [], _, more, ?_, .last hbefore hbody hafter, hv,
            fun _ hm => absurd hm List.not_mem_nil, ?_, hmore⟩
          · rw [ht]
            simp
          · rwa [List.map_nil, List.append_nil]
        next => cases hchiudi

/-- **The validator accepts the documents that repeat no key.** -/
theorem valida_iff (t : Text) :
    valida hash t = some () ↔ ∃ v, IsDocument v t ∧ ¬ v.Repeats := by
  have hfinito (rest : Text) : corri hash ⟨.chiusura, rest, [], []⟩ = some (spazi rest) := by
    rw [corri_eq]
    rfl
  unfold valida
  constructor
  · intro h
    obtain ⟨out, hcorri, hrest⟩ := Option.bind_eq_some_iff.1 h
    obtain ⟨before, v, body, rest, hbefore, ht, hbody, hv, hout⟩ :=
      (accepts t).value [] [] out hcorri
    rw [hfinito] at hout
    cases hout
    split at hrest
    next hnil =>
      rw [spazi_idem] at hnil
      exact ⟨v, ⟨before, body, rest, ht, hbefore, hbody, isSpace_of_spazi hnil⟩, hv⟩
    next => cases hrest
  · rintro ⟨v, ⟨before, body, after, rfl, hbefore, hbody, hafter⟩, hv⟩
    have hends : Ends after := by
      have := ends_append hafter ends_nil
      rwa [List.append_nil] at this
    rw [corri_before hbefore, passes_of_spells hbody hv [] [] after hends, hfinito,
      Option.bind_some, spazi_idem, spazi_of_isSpace hafter, if_pos rfl]

end Runs

end Plenora.Core.Projjson
