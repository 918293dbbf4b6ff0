import Plenora.Engine.Cache

/-!
# Cache coherence of the engine

A store is guarded by the generation alone, so what holds of every run is that a
cached value was observed with the current secret.  A value observed before an
invalidation, an older observation and a value for a disposed engine get in as
well; in the runs where no store does that, the caches are coherent:

    (engine env).Within Orderly (fresh secret) events → Coherent env c'.shared   (caches_coherent)
-/

namespace Plenora.Engine

open Plenora.Lib Plenora.Core

variable {C M : Type}

/-! ## Coherence -/

/-- The observation was made with the secret and the generation of the event. -/
def Observation.CurrentAt {α : Type} (o : Observation α) (e : Event C M) : Prop :=
  o.secret = e.secret ∧ o.generation = e.generation

/-- The event is an invalidation of the source, or of every source. -/
def Event.Invalidates (e : Event C M) (source : ObjectRef) : Prop :=
  ∃ target removed, e.occurrence = .invalidateMetadata target removed ∧
    ∀ object, target = some object → MetadataCacheKey.from object = .from source

def DisposeReturned (s : Inner C M) : Prop := ∃ e ∈ s.history, e.occurrence = .dispose

def CachesEmpty (s : Inner C M) : Prop :=
  s.credentials.capabilities = none ∧ s.credentials.metadata = ∅

/-- What the calls returned so far, and what is cached, is coherent. -/
structure Coherent (env : Environment C M) (s : Inner C M) : Prop where
  capabilities : ∀ e ∈ s.history, ∀ o, e.occurrence = .capabilities (.ok o) →
    o.CurrentAt e ∧ env.probeCapabilities o.moment o.secret = .ok o.value
  metadata : ∀ e ∈ s.history, ∀ source o, e.occurrence = .reflectTable source (.ok o) →
    o.CurrentAt e ∧ env.inspect o.moment o.secret source = .ok o.value
  invalidated : ∀ e ∈ s.history, ∀ source o, e.occurrence = .reflectTable source (.ok o) →
    ∀ i ∈ s.history, i.Invalidates source → i.moment < e.moment → i.moment < o.moment
  ordered : ∀ e ∈ s.history, ∀ previous moment,
    e.occurrence = .stored (some previous) moment → previous ≤ moment
  disposed : DisposeReturned s → CachesEmpty s

/-- The condition on a step.  A store in the generation of its observation comes before the return
of `dispose`, replaces no newer observation, and no invalidation of its object ran since the
observation; a second `dispose` finds the caches empty. -/
def Orderly (s : Inner C M) : Op C M → Prop
  | .storeCapabilities _ _ generation (.ok capabilities) =>
    s.credentials.generation = generation → ¬ DisposeReturned s ∧
      ∀ cached, s.credentials.capabilities = some cached → cached.moment ≤ capabilities.moment
  | .storeMetadata source _ _ generation metadata =>
    s.credentials.generation = generation → ¬ DisposeReturned s ∧
      (∀ entry, s.credentials.metadata.lookup (.from source) = some entry →
        entry.value.moment ≤ metadata.moment) ∧
      ∀ e ∈ s.history, e.Invalidates source → e.moment < metadata.moment
  | .dispose => s.disposed → CachesEmpty s
  | _ => True

/-! ## Invariant -/

theorem MetadataCacheKey.from_inj {a b : ObjectRef} :
    MetadataCacheKey.from a = .from b ↔ a = b := by
  cases a
  cases b
  simp [MetadataCacheKey.from]

/-- A secret that was current at some time, with the generation it had. -/
def Issued (s : Inner C M) (secret : String) (generation : Nat) : Prop :=
  generation ≤ s.credentials.generation ∧
    (generation = s.credentials.generation → secret = s.credentials.secret)

/-- An observation on its way to the cache. -/
structure Gathered {α : Type} (s : Inner C M) (generation : Nat) (o : Observation α) : Prop where
  issued : Issued s o.secret o.generation
  generation : o.generation = generation

/-- What an operation carries from the sections before it. -/
def Sound (env : Environment C M) (s : Inner C M) : Op C M → Prop
  | .probeCapabilities _ _ secret generation => Issued s secret generation
  | .probed _ _ generation result | .storeCapabilities _ _ generation result =>
    ∀ o, result = .ok o →
      Gathered s generation o ∧ env.probeCapabilities o.moment o.secret = .ok o.value
  | .inspect _ _ _ secret generation => Issued s secret generation
  | .inspected source _ _ generation result | .checkGeneration source _ _ generation result =>
    ∀ o, result = .ok o →
      Gathered s generation o ∧ env.inspect o.moment o.secret source = .ok o.value
  | .storeMetadata source _ _ generation o =>
    Gathered s generation o ∧ env.inspect o.moment o.secret source = .ok o.value
  | _ => True

def Observation.IsCurrent {α : Type} (o : Observation α) (s : Inner C M) : Prop :=
  o.secret = s.credentials.secret ∧ o.generation = s.credentials.generation

/-- The cached values and the history. -/
structure Good (env : Environment C M) (s : Inner C M) : Prop where
  capabilities : ∀ o, s.credentials.capabilities = some o →
    o.IsCurrent s ∧ env.probeCapabilities o.moment o.secret = .ok o.value
  metadata : ∀ source entry, s.credentials.metadata.lookup (.from source) = some entry →
    entry.value.IsCurrent s ∧
      env.inspect entry.value.moment entry.value.secret source = .ok entry.value.value ∧
      ∀ e ∈ s.history, e.Invalidates source → e.moment < entry.value.moment
  past : ∀ e ∈ s.history, e.moment ≤ s.moment
  coherent : Coherent env s

/-! ## Updates of the state -/

section Updates

variable {env : Environment C M} {s : Inner C M}

/-- An occurrence that may join the history now. -/
def Fits (env : Environment C M) (s : Inner C M) : Occurrence C M → Prop
  | .capabilities (.ok o) => o.IsCurrent s ∧ env.probeCapabilities o.moment o.secret = .ok o.value
  | .reflectTable source (.ok o) =>
    o.IsCurrent s ∧ env.inspect o.moment o.secret source = .ok o.value ∧
      ∀ e ∈ s.history, e.Invalidates source → e.moment < o.moment
  | .invalidateMetadata target _ => ∀ source, (∀ object, target = some object →
      MetadataCacheKey.from object = .from source) →
      s.credentials.metadata.lookup (.from source) = none
  | .stored (some previous) moment => previous ≤ moment
  | .dispose => CachesEmpty s
  | _ => True

theorem Good.note (h : Good env s) {occurrence : Occurrence C M} (hfits : Fits env s occurrence) :
    Good env (s.note occurrence) := by
  have hmem : ∀ e : Event C M, e ∈ (s.note occurrence).history ↔
      e = ⟨s.moment, s.credentials.secret, s.credentials.generation, occurrence⟩ ∨ e ∈ s.history :=
    fun e => List.mem_cons
  refine ⟨h.capabilities, ?_, ?_, ?_, ?_, ?_, ?_, ?_⟩
  · intro source entry hentry
    obtain ⟨hcurrent, hanswer, hfresh⟩ := h.metadata source entry hentry
    refine ⟨hcurrent, hanswer, fun e he hinvalidates => ?_⟩
    rcases (hmem e).1 he with rfl | he
    · obtain ⟨target, removed, hoccurrence, hcovers⟩ := hinvalidates
      subst hoccurrence
      have hnone := hfits source hcovers
      rw [show (s.note _).credentials = s.credentials from rfl, hnone] at hentry
      cases hentry
    · exact hfresh e he hinvalidates
  · intro e he
    rcases (hmem e).1 he with rfl | he
    · exact Nat.le_refl _
    · exact h.past e he
  · intro e he o ho
    rcases (hmem e).1 he with rfl | he
    · subst ho
      exact hfits
    · exact h.coherent.capabilities e he o ho
  · intro e he source o ho
    rcases (hmem e).1 he with rfl | he
    · subst ho
      exact ⟨hfits.1, hfits.2.1⟩
    · exact h.coherent.metadata e he source o ho
  · intro e he source o ho i hi hinvalidates hbefore
    rcases (hmem e).1 he with rfl | he
    · subst ho
      rcases (hmem i).1 hi with rfl | holder
      · exact absurd hbefore (Nat.lt_irrefl _)
      · exact hfits.2.2 i holder hinvalidates
    · rcases (hmem i).1 hi with rfl | holder
      · exact absurd hbefore (Nat.not_lt.2 (h.past e he))
      · exact h.coherent.invalidated e he source o ho i holder hinvalidates hbefore
  · intro e he previous moment ho
    rcases (hmem e).1 he with rfl | he
    · subst ho
      exact hfits
    · exact h.coherent.ordered e he previous moment ho
  · rintro ⟨e, he, ho⟩
    rcases (hmem e).1 he with rfl | he
    · subst ho
      exact hfits
    · exact h.coherent.disposed ⟨e, he, ho⟩

/-- The clock moves on; the flag of the lifecycle is no part of the invariant. -/
theorem Good.tick (h : Good env s) (disposed : Bool) :
    Good env { s with disposed, moment := s.moment + 1 } :=
  ⟨h.capabilities, h.metadata, fun e he => Nat.le_succ_of_le (h.past e he),
    ⟨h.coherent.capabilities, h.coherent.metadata, h.coherent.invalidated, h.coherent.ordered,
      h.coherent.disposed⟩⟩

theorem Good.cacheCapabilities (h : Good env s) {o : Observation C} (hcurrent : o.IsCurrent s)
    (hanswer : env.probeCapabilities o.moment o.secret = .ok o.value)
    (hopen : ¬ DisposeReturned s) : Good env (s.cacheCapabilities o) := by
  refine ⟨fun cached hcached => ?_, h.metadata, h.past, h.coherent.capabilities,
    h.coherent.metadata, h.coherent.invalidated, h.coherent.ordered,
    fun hdisposed => absurd hdisposed hopen⟩
  cases hcached
  exact ⟨hcurrent, hanswer⟩

theorem Good.cacheMetadata (h : Good env s) {source : ObjectRef} {entry : CachedMetadata M}
    (hcurrent : entry.value.IsCurrent s)
    (hanswer : env.inspect entry.value.moment entry.value.secret source = .ok entry.value.value)
    (hfresh : ∀ e ∈ s.history, e.Invalidates source → e.moment < entry.value.moment)
    (hopen : ¬ DisposeReturned s) : Good env (s.cacheMetadata (.from source) entry) := by
  refine ⟨h.capabilities, fun other cached hcached => ?_, h.past, h.coherent.capabilities,
    h.coherent.metadata, h.coherent.invalidated, h.coherent.ordered,
    fun hdisposed => absurd hdisposed hopen⟩
  simp only [Inner.cacheMetadata] at hcached
  by_cases hsame : other = source
  · subst hsame
    rw [AList.lookup_insert] at hcached
    cases hcached
    exact ⟨hcurrent, hanswer, hfresh⟩
  · rw [AList.lookup_insert_ne fun hkey => hsame (MetadataCacheKey.from_inj.1 hkey)] at hcached
    exact h.metadata other cached hcached

theorem Good.dropMetadata (h : Good env s)
    {metadata : AList fun _ : MetadataCacheKey => CachedMetadata M}
    (hsub : ∀ key entry, metadata.lookup key = some entry →
      s.credentials.metadata.lookup key = some entry)
    (hempty : s.credentials.metadata = ∅ → metadata = ∅) : Good env (s.dropMetadata metadata) := by
  refine ⟨h.capabilities, fun source entry hentry => h.metadata source entry (hsub _ _ hentry),
    h.past, h.coherent.capabilities, h.coherent.metadata, h.coherent.invalidated,
    h.coherent.ordered, fun hdisposed => ?_⟩
  obtain ⟨hnone, hmetadata⟩ := h.coherent.disposed hdisposed
  exact ⟨hnone, hempty hmetadata⟩

/-- Empty caches are good under any secret. -/
theorem Good.emptied (h : Good env s) (secret : String) (generation : Nat) :
    Good env { s with credentials := ⟨secret, generation, none, ∅⟩ } := by
  refine ⟨fun o ho => ?_, fun source entry hentry => ?_, h.past, h.coherent.capabilities,
    h.coherent.metadata, h.coherent.invalidated, h.coherent.ordered, fun _ => ⟨rfl, rfl⟩⟩
  · cases ho
  · rw [AList.lookup_empty] at hentry
    cases hentry

end Updates

/-! ## Steps -/

section Steps

variable {env : Environment C M} {s s' : Inner C M}

/-- The state after a section: the generation grows whenever the secret changes. -/
def Later (s s' : Inner C M) : Prop :=
  (s'.credentials.secret = s.credentials.secret ∧
    s'.credentials.generation = s.credentials.generation) ∨
  s.credentials.generation < s'.credentials.generation

theorem Issued.later {secret : String} {generation : Nat} (h : Issued s secret generation)
    (hlater : Later s s') : Issued s' secret generation := by
  obtain ⟨hle, hsecret⟩ := h
  rcases hlater with ⟨hs, hg⟩ | hlt
  · exact ⟨by omega, fun he => by rw [hs]; exact hsecret (by omega)⟩
  · exact ⟨by omega, fun he => by omega⟩

theorem Gathered.later {α : Type} {generation : Nat} {o : Observation α}
    (h : Gathered s generation o) (hlater : Later s s') : Gathered s' generation o :=
  ⟨h.issued.later hlater, h.generation⟩

/-- An observation of the current generation was made with the current secret. -/
theorem Gathered.isCurrent {α : Type} {generation : Nat} {o : Observation α}
    (h : Gathered s generation o) (hgeneration : s.credentials.generation = generation) :
    o.IsCurrent s :=
  ⟨h.issued.2 (h.generation.trans hgeneration.symm), h.generation.trans hgeneration.symm⟩

theorem Sound.later {op : Op C M} (h : Sound env s op) (hlater : Later s s') :
    Sound env s' op := by
  cases op with
  | probeCapabilities => exact Issued.later h hlater
  | inspect => exact Issued.later h hlater
  | probed => exact fun o ho => ⟨(h o ho).1.later hlater, (h o ho).2⟩
  | storeCapabilities => exact fun o ho => ⟨(h o ho).1.later hlater, (h o ho).2⟩
  | inspected => exact fun o ho => ⟨(h o ho).1.later hlater, (h o ho).2⟩
  | checkGeneration => exact fun o ho => ⟨(h o ho).1.later hlater, (h o ho).2⟩
  | storeMetadata => exact ⟨h.1.later hlater, h.2⟩
  | _ => trivial

theorem issued_current (s : Inner C M) :
    Issued s s.credentials.secret s.credentials.generation :=
  ⟨Nat.le_refl _, fun _ => rfl⟩

/-- The provider's answer, seen from the state that follows. -/
theorem observe_gathered {α : Type} {secret : String} {generation : Nat} {answer : Result α}
    {o : Observation α} (hissued : Issued s secret generation)
    (ho : observe s secret generation answer = .ok o) :
    Gathered s generation o ∧ answer = .ok o.value ∧ o.secret = secret ∧ o.moment = s.moment := by
  cases answer with
  | error e => cases ho
  | ok value =>
    cases ho
    exact ⟨⟨hissued, rfl⟩, rfl, rfl, rfl⟩

/-- What a section leaves: a good state, later credentials and sound operations. -/
structure Kept (env : Environment C M) (s : Inner C M) (r : Inner C M × List (Op C M)) : Prop where
  good : Good env r.1
  later : Later s r.1
  sound : ∀ op ∈ r.2, Sound env r.1 op

theorem Later.refl (s : Inner C M) : Later s s := .inl ⟨rfl, rfl⟩

theorem Kept.done (h : Good env s') (hlater : Later s s') : Kept env s (s', []) :=
  ⟨h, hlater, fun _ hop => nomatch hop⟩

theorem Kept.next {op : Op C M} (h : Good env s) (hop : Sound env s op) : Kept env s (s, [op]) :=
  ⟨h, Later.refl s, by simpa using hop⟩

theorem Kept.noted (h : Good env s) {occurrence : Occurrence C M}
    (hfits : Fits env s occurrence) : Kept env s (s.note occurrence, []) :=
  .done (h.note hfits) (Later.refl s)

theorem kept_storeCapabilities (h : Good env s) {refresh : Bool} {attempts generation : Nat}
    {result : Result (Observation C)}
    (hsound : Sound env s (.storeCapabilities refresh attempts generation result))
    (horderly : Orderly s (.storeCapabilities refresh attempts generation result)) :
    Kept env s (sectionOf env s (.storeCapabilities refresh attempts generation result)) := by
  by_cases hsame : s.credentials.generation = generation
  · cases result with
    | error error =>
      rw [sectionOf, if_neg (not_not.2 hsame)]
      exact .noted h trivial
    | ok o =>
      rw [sectionOf, if_neg (not_not.2 hsame)]
      obtain ⟨hgathered, hanswer⟩ := hsound o rfl
      obtain ⟨hopen, hnewest⟩ := horderly hsame
      have hcurrent : o.IsCurrent s := hgathered.isCurrent hsame
      have hstored : Fits env s
          (.stored (s.credentials.capabilities.map (·.moment)) o.moment) := by
        cases hcached : s.credentials.capabilities with
        | none => exact trivial
        | some cached => exact hnewest cached hcached
      have hopen' : ¬ DisposeReturned
          (s.note (.stored (s.credentials.capabilities.map (·.moment)) o.moment)) := by
        rintro ⟨e, he, hdispose⟩
        rcases List.mem_cons.1 he with rfl | he
        · cases hdispose
        · exact hopen ⟨e, he, hdispose⟩
      have hcached := (h.note hstored).cacheCapabilities hcurrent hanswer hopen'
      have hreturned : Fits env _ (.capabilities (.ok o)) := ⟨hcurrent, hanswer⟩
      exact .done (hcached.note hreturned) (Later.refl s)
  · have hskip : sectionOf env s (.storeCapabilities refresh attempts generation result) =
        (s, [.capabilities refresh attempts]) := by
      cases result with
      | error error => rw [sectionOf, if_pos hsame]
      | ok o => rw [sectionOf, if_pos hsame]
    rw [hskip]
    exact .next h trivial

theorem kept_storeMetadata (h : Good env s) {source : ObjectRef} {refresh : Bool}
    {attempts generation : Nat} {o : Observation M}
    (hsound : Sound env s (.storeMetadata source refresh attempts generation o))
    (horderly : Orderly s (.storeMetadata source refresh attempts generation o)) :
    Kept env s (sectionOf env s (.storeMetadata source refresh attempts generation o)) := by
  rw [sectionOf]
  split
  next => exact .next h trivial
  next hgeneration =>
    have hsame : s.credentials.generation = generation := not_not.1 hgeneration
    obtain ⟨hgathered, hanswer⟩ := hsound
    obtain ⟨hopen, hnewest, hfresh⟩ := horderly hsame
    have hcurrent : o.IsCurrent s := hgathered.isCurrent hsame
    generalize hprevious : (s.credentials.metadata.lookup (.from source)).map (·.value.moment) =
      previous
    have hstored : Fits env s (.stored previous o.moment) := by
      cases previous with
      | none => exact trivial
      | some moment =>
        obtain ⟨entry, hentry, rfl⟩ := Option.map_eq_some_iff.1 hprevious
        exact hnewest entry hentry
    have hopen' : ¬ DisposeReturned (s.note (.stored previous o.moment)) := by
      rintro ⟨e, he, hdispose⟩
      rcases List.mem_cons.1 he with rfl | he
      · cases hdispose
      · exact hopen ⟨e, he, hdispose⟩
    have hfresh' : ∀ e ∈ (s.note (.stored previous o.moment)).history,
        e.Invalidates source → e.moment < o.moment := by
      intro e he hinvalidates
      rcases List.mem_cons.1 he with rfl | he
      · obtain ⟨_, _, hoccurrence, -⟩ := hinvalidates
        cases hoccurrence
      · exact hfresh e he hinvalidates
    have hcached : Good env ((s.note (.stored previous o.moment)).cacheMetadata (.from source)
        ⟨env.clock s.moment, o⟩) :=
      (h.note hstored).cacheMetadata hcurrent hanswer hfresh' hopen'
    have hreturned : Fits env ((s.note (.stored previous o.moment)).cacheMetadata (.from source)
        ⟨env.clock s.moment, o⟩) (.reflectTable source (.ok o)) := ⟨hcurrent, hanswer, hfresh'⟩
    exact .done (hcached.note hreturned) (Later.refl s)

theorem kept_invalidateMetadata (h : Good env s) (target : Option ObjectRef) :
    Kept env s (sectionOf env s (.invalidateMetadata target)) := by
  cases target with
  | none =>
    have hdropped : Good env (s.dropMetadata ∅) := by
      refine h.dropMetadata (fun key entry hentry => ?_) fun _ => rfl
      rw [AList.lookup_empty] at hentry
      cases hentry
    have hcovered : ∀ removed, Fits env (s.dropMetadata ∅) (.invalidateMetadata none removed) :=
      fun _ source _ => AList.lookup_empty _
    exact .done (hdropped.note (hcovered _)) (Later.refl s)
  | some object =>
    have hdropped : Good env (s.dropMetadata (s.credentials.metadata.erase (.from object))) := by
      refine h.dropMetadata (fun key entry hentry => ?_) fun hempty => by rw [hempty]; rfl
      by_cases hkey : key = .from object
      · subst hkey
        rw [AList.lookup_erase] at hentry
        cases hentry
      · rwa [AList.lookup_erase_ne hkey] at hentry
    have hcovered : ∀ removed, Fits env (s.dropMetadata (s.credentials.metadata.erase (.from object)))
        (.invalidateMetadata (some object) removed) := by
      intro removed source hcovers
      rw [← hcovers object rfl]
      exact AList.lookup_erase _ _
    exact .done (hdropped.note (hcovered _)) (Later.refl s)

theorem liveEntry_eq_some {key : MetadataCacheKey} {o : Observation M}
    (h : liveEntry env s key = some o) :
    ∃ entry, s.credentials.metadata.lookup key = some entry ∧ entry.value = o := by
  unfold liveEntry at h
  split at h
  next entry hentry =>
    split at h
    next => exact ⟨entry, hentry, Option.some.inj h⟩
    next => cases h
  next => cases h

/-- **What every section keeps, when it meets the condition.** -/
theorem kept_sectionOf (h : Good env s) {op : Op C M} (hsound : Sound env s op)
    (horderly : Orderly s op) : Kept env s (sectionOf env s op) := by
  cases op with
  | capabilities refresh attempts =>
    cases attempts with
    | zero => exact .noted h trivial
    | succ attempts =>
      rw [sectionOf]
      split
      next => exact .noted h trivial
      next => exact .next h trivial
  | readCapabilities refresh attempts =>
    rw [sectionOf]
    split
    next cached hcached =>
      have hcaps : s.credentials.capabilities = some cached := by
        split at hcached
        next => cases hcached
        next => exact hcached
      exact .noted h (h.capabilities cached hcaps)
    next => exact .next h (issued_current s)
  | probeCapabilities refresh attempts secret generation =>
    refine .next h fun o ho => ?_
    obtain ⟨hgathered, hanswer, hsecret, hmoment⟩ := observe_gathered hsound ho
    exact ⟨hgathered, by rw [hmoment, hsecret, hanswer]⟩
  | probed refresh attempts generation result =>
    rw [sectionOf]
    split
    next => exact .noted h trivial
    next => exact .next h hsound
  | storeCapabilities refresh attempts generation result =>
    exact kept_storeCapabilities h hsound horderly
  | reflectTable source refresh attempts =>
    cases attempts with
    | zero => exact .noted h trivial
    | succ attempts =>
      rw [sectionOf]
      split
      next => exact .noted h trivial
      next => exact .next h trivial
  | readMetadata source refresh attempts =>
    rw [sectionOf]
    split
    next cached hcached =>
      have hlive : liveEntry env s (.from source) = some cached := by
        split at hcached
        next => cases hcached
        next => exact hcached
      obtain ⟨entry, hentry, rfl⟩ := liveEntry_eq_some hlive
      exact .noted h (h.metadata source entry hentry)
    next => exact .next h (issued_current s)
  | inspect source refresh attempts secret generation =>
    refine .next h fun o ho => ?_
    obtain ⟨hgathered, hanswer, hsecret, hmoment⟩ := observe_gathered hsound ho
    exact ⟨hgathered, by rw [hmoment, hsecret, hanswer]⟩
  | inspected source refresh attempts generation result =>
    rw [sectionOf]
    split
    next => exact .noted h trivial
    next => exact .next h hsound
  | checkGeneration source refresh attempts generation result =>
    cases result with
    | error error =>
      rw [sectionOf]
      split
      next => exact .next h trivial
      next => exact .noted h trivial
    | ok metadata =>
      rw [sectionOf]
      split
      next => exact .next h trivial
      next => exact .next h (hsound metadata rfl)
  | storeMetadata source refresh attempts generation metadata =>
    exact kept_storeMetadata h hsound horderly
  | rotateSecret secret =>
    rw [sectionOf]
    split
    next => exact .noted h trivial
    next => exact .next h trivial
  | replaceSecret secret =>
    rw [sectionOf]
    split
    next => exact .noted h trivial
    next generation hadd =>
      obtain ⟨-, rfl⟩ := checkedAdd_eq_some.1 hadd
      have hempty := h.emptied secret (s.credentials.generation + 1)
      have hrotated : ∀ s' : Inner C M, Fits env s' (.rotateSecret (.ok ())) := fun _ => trivial
      exact .done (hempty.note (hrotated _)) (.inr (Nat.lt_succ_self _))
  | invalidateMetadata target => exact kept_invalidateMetadata h target
  | dispose =>
    rw [sectionOf]
    split
    next hdisposed => exact .noted h (horderly hdisposed)
    next =>
      have hflag : Good env { s with disposed := true } :=
        ⟨h.capabilities, h.metadata, h.past, ⟨h.coherent.capabilities, h.coherent.metadata,
          h.coherent.invalidated, h.coherent.ordered, h.coherent.disposed⟩⟩
      refine ⟨hflag, Later.refl s, fun op hop => ?_⟩
      rw [List.mem_singleton.1 hop]
      trivial
  | clearCaches =>
    have hempty : Fits env s.clear .dispose := ⟨rfl, rfl⟩
    exact .done ((h.emptied _ _).note hempty) (Later.refl s)

theorem kept_exec (h : Good env s) {op : Op C M} (hsound : Sound env s op)
    (horderly : Orderly s op) : Kept env s (exec env s op) := by
  obtain ⟨hgood, hlater, hops⟩ := kept_sectionOf h hsound horderly
  exact ⟨hgood.tick _, hlater, fun next hnext => (hops next hnext).later (Later.refl _)⟩

end Steps

/-! ## Top theorem -/

/-- The invariant of a configuration. -/
def Inv (env : Environment C M) (s : Inner C M) (pending : Op C M → Prop) : Prop :=
  Good env s ∧ ∀ op, pending op → Sound env s op

theorem keepsWithin (env : Environment C M) :
    (engine env).KeepsWithin Orderly (Inv env) := by
  refine ⟨?_, ?_⟩
  · rintro s P P' op ⟨hgood, hpending⟩ hop horderly hadvances
    have hkept : Kept env s (exec env s op) := kept_exec hgood (hpending op hop) horderly
    refine ⟨hkept.good, fun next hnext => ?_⟩
    rcases hadvances.only next hnext with hold | hnew
    · exact (hpending next hold).later hkept.later
    · exact hkept.sound next hnew
  · rintro s P P' call s' ops ⟨hgood, hpending⟩ hstart hadvances
    have hcall : s' = s ∧ ∀ op ∈ ops, Sound env s op := by
      cases call with
      | _ =>
        cases hstart
        exact ⟨rfl, fun op hop => by rw [List.mem_singleton.1 hop]; trivial⟩
    obtain ⟨rfl, hsound⟩ := hcall
    refine ⟨hgood, fun next hnext => ?_⟩
    rcases hadvances.only next hnext with hold | hnew
    · exact hpending next hold
    · exact hsound next hnew

theorem good_fresh (env : Environment C M) (secret : String) :
    Good env (fresh (C := C) (M := M) secret).shared := by
  refine ⟨?_, ?_, ?_, ?_, ?_, ?_, ?_, ?_⟩ <;> simp [fresh, DisposeReturned]

/-- **In every run whose steps meet the condition, every state is coherent.** -/
theorem caches_coherent (env : Environment C M) (secret : String)
    (events : List (Threads.Event Call)) (c : Threads.Config (Inner C M) (Op C M))
    (hrun : (engine env).run (fresh secret) events = some c)
    (horderly : (engine env).Within Orderly (fresh secret) events) : Coherent env c.shared := by
  have hquiescent : (fresh (C := C) (M := M) secret).Quiescent := fun _ => rfl
  have hinit : Inv env (fresh secret).shared (fresh secret).Pending :=
    ⟨good_fresh env secret, fun op hop => absurd hop (hquiescent.not_pending op)⟩
  exact ((keepsWithin env).run hrun horderly hinit).1.coherent

/-- A provider that answers with the moment of the call. -/
def momentProvider : Environment Nat Nat where
  providerKind := .postgres
  metadataCacheTtl := 30
  clock := id
  probeCapabilities := fun moment _ => .ok moment
  inspect := fun moment _ _ => .ok moment

def events : ObjectRef := ⟨none, none, "events"⟩

/-- The secret is rotated while a table is reflected, so that the reflection starts again; then the
metadata is invalidated and the engine is disposed. -/
def twoThreads : List (Threads.Event Call) :=
  [.call 0 (.reflectTable events false), .call 1 (.rotateSecret "next"), .run 0, .run 0, .run 1,
   .run 1, .run 0, .run 0, .run 0, .run 0, .run 0, .run 0, .run 0, .run 0, .run 0,
   .call 1 (.invalidateMetadata none), .run 1, .call 1 .dispose, .run 1, .run 1]

theorem caches_coherent_two_threads :
    ∃ c, (engine momentProvider).run (fresh "secret") twoThreads = some c ∧
      Coherent momentProvider c.shared := by
  refine ⟨_, rfl, caches_coherent momentProvider "secret" twoThreads _ rfl ?_⟩
  refine .call rfl (.call rfl (.run rfl trivial rfl (.run rfl trivial rfl (.run rfl trivial rfl
    (.run rfl trivial rfl (.run rfl trivial rfl (.run rfl trivial rfl (.run rfl trivial rfl
    (.run rfl trivial rfl (.run rfl trivial rfl (.run rfl trivial rfl (.run rfl trivial rfl
    (.run rfl trivial rfl (.run rfl (fun _ => ⟨?_, ?_, ?_⟩) rfl ?_))))))))))))))
  · rintro ⟨e, _ | ⟨_, ⟨⟩⟩, hdispose⟩
    cases hdispose
  · exact fun entry hentry => nomatch hentry
  · exact fun e he _ => (by decide : ∀ e ∈ _, e.moment < _) e he
  exact .call rfl (.run rfl trivial rfl (.call rfl (.run rfl (fun h => nomatch h) rfl
    (.run rfl trivial rfl trivial))))

/-- A reflection starts, the metadata is invalidated, the reflection ends, another one starts. -/
def storeAfterInvalidation : List (Threads.Event Call) :=
  [.call 0 (.reflectTable events false), .run 0, .run 0, .run 0,
   .call 1 (.invalidateMetadata none), .run 1, .run 0, .run 0, .run 0,
   .call 2 (.reflectTable events false), .run 2, .run 2]

def storeAfterNewer : List (Threads.Event Call) :=
  [.call 0 (.reflectTable events true), .run 0, .run 0, .run 0,
   .call 1 (.reflectTable events true), .run 1, .run 1, .run 1, .run 1, .run 1, .run 1,
   .run 0, .run 0, .run 0]

def storeAfterDispose : List (Threads.Event Call) :=
  [.call 0 (.reflectTable events false), .run 0, .run 0, .run 0, .run 0,
   .call 1 .dispose, .run 1, .run 1, .run 0, .run 0]

/-- An observation older than an invalidation is served after it; an older observation replaces
a newer one; a disposed engine caches metadata. -/
theorem caches_incoherent :
    (∃ c, (engine momentProvider).run (fresh "secret") storeAfterInvalidation = some c ∧
      ¬ Coherent momentProvider c.shared) ∧
    (∃ c, (engine momentProvider).run (fresh "secret") storeAfterNewer = some c ∧
      ¬ Coherent momentProvider c.shared) ∧
    (∃ c, (engine momentProvider).run (fresh "secret") storeAfterDispose = some c ∧
      ¬ Coherent momentProvider c.shared) := by
  refine ⟨⟨_, rfl, fun h => ?_⟩, ⟨_, rfl, fun h => ?_⟩, ⟨_, rfl, fun h => ?_⟩⟩
  · have hserved := h.invalidated ⟨8, "secret", 0, .reflectTable events (.ok ⟨2, "secret", 0, 2⟩)⟩
      (by exact .head _) events ⟨2, "secret", 0, 2⟩ rfl
      ⟨3, "secret", 0, .invalidateMetadata none 0⟩ (by exact .tail _ (.tail _ (.tail _ (.head _))))
      ⟨none, 0, rfl, fun _ hobject => nomatch hobject⟩ (by decide)
    exact absurd hserved (by decide)
  · have hstored := h.ordered ⟨11, "secret", 0, .stored (some 5) 2⟩ (by exact .tail _ (.head _)) 5 2 rfl
    exact absurd hstored (by decide)
  · have hempty := h.disposed ⟨⟨5, "secret", 0, .dispose⟩, .tail _ (.tail _ (.head _)), rfl⟩
    have hlength := congrArg (fun metadata => metadata.entries.length) hempty.2
    exact absurd hlength (by decide)

end Plenora.Engine
