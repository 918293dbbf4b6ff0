import Plenora.Lib.Threads
import Plenora.Lib.Machine
import Plenora.Core.Error
import Plenora.Core.Plan

/-!
# The engine's capability and metadata caches

One engine, any number of threads that call it.  A section under a lock is one
operation, and so is the provider's answer; the locks are free between them.

    exec : Inner C M → Op C M → Inner C M × List (Op C M)     one section, and those left to do
    engine : Threads (Inner C M) (Op C M) Call                 the calls of any number of threads
-/

namespace Plenora.Engine

open Plenora.Lib Plenora.Core

/-! ## Data model -/

abbrev Instant := Nat

structure MetadataCacheKey where
  catalog : Option String
  schema : Option String
  object : String
  deriving DecidableEq, Repr

def MetadataCacheKey.from (source : ObjectRef) : MetadataCacheKey :=
  ⟨source.catalog, source.schema, source.object⟩

/-- What the provider answered, with where the answer comes from: the secret and the generation
the call was made with, and the number of sections that had run before it. -/
structure Observation (α : Type) where
  value : α
  secret : String
  generation : Nat
  moment : Nat
  deriving Repr

structure CachedMetadata (M : Type) where
  observedAt : Instant
  value : Observation M

structure Credentials (C M : Type) where
  secret : String
  generation : Nat
  capabilities : Option (Observation C)
  metadata : AList fun _ : MetadataCacheKey => CachedMetadata M

/-- What a call returned, and what a store put in the place of what. -/
inductive Occurrence (C M : Type) where
  | capabilities (result : Result (Observation C))
  | reflectTable (source : ObjectRef) (result : Result (Observation M))
  | rotateSecret (result : Result Unit)
  | invalidateMetadata (source : Option ObjectRef) (removed : Nat)
  | dispose
  | stored (previous : Option Nat) (moment : Nat)

/-- An occurrence, its moment and the credentials current then. -/
structure Event (C M : Type) where
  moment : Nat
  secret : String
  generation : Nat
  occurrence : Occurrence C M

/-- The shared state.  `moment` counts the sections that ran; `history` is what the calls
returned, newest first, and no operation reads it. -/
structure Inner (C M : Type) where
  disposed : Bool
  credentials : Credentials C M
  moment : Nat
  history : List (Event C M)

/-- The provider, the clock and the options: an arbitrary answer and an arbitrary instant at every
moment.  `inspect` stands for the provider's inspection read by `MetaData::from_inspection`. -/
structure Environment (C M : Type) where
  providerKind : ProviderKind
  metadataCacheTtl : Nat
  clock : Nat → Instant
  probeCapabilities : Nat → String → Result C
  inspect : Nat → String → ObjectRef → Result M

/-- The sections of the calls; `attempts` is how many turns of the loop are left. -/
inductive Op (C M : Type) where
  | capabilities (refresh : Bool) (attempts : Nat)
  | readCapabilities (refresh : Bool) (attempts : Nat)
  | probeCapabilities (refresh : Bool) (attempts : Nat) (secret : String) (generation : Nat)
  | probed (refresh : Bool) (attempts generation : Nat) (result : Result (Observation C))
  | storeCapabilities (refresh : Bool) (attempts generation : Nat)
      (result : Result (Observation C))
  | reflectTable (source : ObjectRef) (refresh : Bool) (attempts : Nat)
  | readMetadata (source : ObjectRef) (refresh : Bool) (attempts : Nat)
  | inspect (source : ObjectRef) (refresh : Bool) (attempts : Nat) (secret : String)
      (generation : Nat)
  | inspected (source : ObjectRef) (refresh : Bool) (attempts generation : Nat)
      (result : Result (Observation M))
  | checkGeneration (source : ObjectRef) (refresh : Bool) (attempts generation : Nat)
      (result : Result (Observation M))
  | storeMetadata (source : ObjectRef) (refresh : Bool) (attempts generation : Nat)
      (metadata : Observation M)
  | rotateSecret (secret : String)
  | replaceSecret (secret : String)
  | invalidateMetadata (source : Option ObjectRef)
  | dispose
  | clearCaches

inductive Call where
  | capabilities (refresh : Bool)
  | reflectTable (source : ObjectRef) (refresh : Bool)
  | rotateSecret (secret : String)
  | invalidateMetadata (source : Option ObjectRef)
  | dispose
  deriving DecidableEq, Repr

/-! ## Algorithm -/

section Algorithm

variable {C M : Type} (env : Environment C M)

def maxAttempts : Nat := 3

def closedError (phase : ErrorPhase) : DatabaseError :=
  .new .invalidConfiguration phase (some env.providerKind) "engine chiuso"

/-- The secret was rotated at every turn of the loop. -/
def rotatedError (message : String) : DatabaseError :=
  { DatabaseError.new .transient .probe (some env.providerKind) message with retry := .safe }

/-- An occurrence joins the history, at this moment and with these credentials. -/
def Inner.note (s : Inner C M) (occurrence : Occurrence C M) : Inner C M :=
  { s with
    history :=
      ⟨s.moment, s.credentials.secret, s.credentials.generation, occurrence⟩ :: s.history }

def Inner.clear (s : Inner C M) : Inner C M :=
  { s with credentials := { s.credentials with capabilities := none, metadata := ∅ } }

def Inner.cacheCapabilities (s : Inner C M) (capabilities : Observation C) : Inner C M :=
  { s with credentials := { s.credentials with capabilities := some capabilities } }

def Inner.cacheMetadata (s : Inner C M) (key : MetadataCacheKey) (entry : CachedMetadata M) :
    Inner C M :=
  { s with credentials :=
      { s.credentials with metadata := s.credentials.metadata.insert key entry } }

def Inner.dropMetadata (s : Inner C M) (metadata : AList fun _ : MetadataCacheKey => CachedMetadata M) :
    Inner C M :=
  { s with credentials := { s.credentials with metadata } }

/-- The provider's answer with its origin. -/
def observe {α : Type} (s : Inner C M) (secret : String) (generation : Nat) (answer : Result α) :
    Result (Observation α) :=
  answer.map fun value => ⟨value, secret, generation, s.moment⟩

/-- The cached entry of a key while its time to live lasts. -/
def liveEntry (s : Inner C M) (key : MetadataCacheKey) : Option (Observation M) :=
  match s.credentials.metadata.lookup key with
  | some entry =>
    if env.clock s.moment - entry.observedAt < env.metadataCacheTtl then some entry.value else none
  | none => none

/-- The sections of `capabilities`, `reflect_table`, `rotate_secret`, `invalidate_metadata` and
`dispose`. -/
def sectionOf (s : Inner C M) : Op C M → Inner C M × List (Op C M)
  | .capabilities _ 0 =>
    (s.note (.capabilities (.error (rotatedError env
      "secret ruotato ripetutamente durante il probe capability"))), [])
  | .capabilities refresh (attempts + 1) =>
    if s.disposed then (s.note (.capabilities (.error (closedError env .probe))), [])
    else (s, [.readCapabilities refresh attempts])
  | .readCapabilities refresh attempts =>
    match (if refresh then none else s.credentials.capabilities) with
    | some cached => (s.note (.capabilities (.ok cached)), [])
    | none =>
      (s, [.probeCapabilities refresh attempts s.credentials.secret s.credentials.generation])
  | .probeCapabilities refresh attempts secret generation =>
    (s, [.probed refresh attempts generation
      (observe s secret generation (env.probeCapabilities s.moment secret))])
  | .probed refresh attempts generation result =>
    if s.disposed then (s.note (.capabilities (.error (closedError env .probe))), [])
    else (s, [.storeCapabilities refresh attempts generation result])
  | .storeCapabilities refresh attempts generation result =>
    if s.credentials.generation ≠ generation then (s, [.capabilities refresh attempts])
    else match result with
      | .ok capabilities =>
        (((s.note (.stored (s.credentials.capabilities.map (·.moment)) capabilities.moment)).cacheCapabilities
          capabilities).note (.capabilities (.ok capabilities)), [])
      | .error error => (s.note (.capabilities (.error error)), [])
  | .reflectTable source _ 0 =>
    (s.note (.reflectTable source (.error (rotatedError env
      "secret ruotato ripetutamente durante la reflection"))), [])
  | .reflectTable source refresh (attempts + 1) =>
    if s.disposed then (s.note (.reflectTable source (.error (closedError env .probe))), [])
    else (s, [.readMetadata source refresh attempts])
  | .readMetadata source refresh attempts =>
    match (if refresh then none else liveEntry env s (.from source)) with
    | some cached => (s.note (.reflectTable source (.ok cached)), [])
    | none =>
      (s, [.inspect source refresh attempts s.credentials.secret s.credentials.generation])
  | .inspect source refresh attempts secret generation =>
    (s, [.inspected source refresh attempts generation
      (observe s secret generation (env.inspect s.moment secret source))])
  | .inspected source refresh attempts generation result =>
    if s.disposed then (s.note (.reflectTable source (.error (closedError env .probe))), [])
    else (s, [.checkGeneration source refresh attempts generation result])
  | .checkGeneration source refresh attempts generation result =>
    if s.credentials.generation ≠ generation then (s, [.reflectTable source refresh attempts])
    else match result with
      | .ok metadata => (s, [.storeMetadata source refresh attempts generation metadata])
      | .error error => (s.note (.reflectTable source (.error error)), [])
  | .storeMetadata source refresh attempts generation metadata =>
    if s.credentials.generation ≠ generation then (s, [.reflectTable source refresh attempts])
    else
      let previous := (s.credentials.metadata.lookup (.from source)).map (·.value.moment)
      (((s.note (.stored previous metadata.moment)).cacheMetadata (.from source)
        ⟨env.clock s.moment, metadata⟩).note (.reflectTable source (.ok metadata)), [])
  | .rotateSecret secret =>
    if s.disposed then (s.note (.rotateSecret (.error (closedError env .connect))), [])
    else (s, [.replaceSecret secret])
  | .replaceSecret secret =>
    match checkedAdd 64 s.credentials.generation 1 with
    | none =>
      (s.note (.rotateSecret (.error (.resourceLimit "generazione secret esaurita"))), [])
    | some generation =>
      (({ s with credentials := ⟨secret, generation, none, ∅⟩ } : Inner C M).note
        (.rotateSecret (.ok ())), [])
  | .invalidateMetadata (some source) =>
    let removed := if (s.credentials.metadata.lookup (.from source)).isSome then 1 else 0
    ((s.dropMetadata (s.credentials.metadata.erase (.from source))).note
      (.invalidateMetadata (some source) removed), [])
  | .invalidateMetadata none =>
    ((s.dropMetadata ∅).note
      (.invalidateMetadata none s.credentials.metadata.entries.length), [])
  | .dispose =>
    if s.disposed then (s.note .dispose, [])
    else ({ s with disposed := true }, [.clearCaches])
  | .clearCaches => (s.clear.note .dispose, [])

/-- A section, after which the next moment begins. -/
def exec (s : Inner C M) (op : Op C M) : Inner C M × List (Op C M) :=
  let (s', ops) := sectionOf env s op
  ({ s' with moment := s'.moment + 1 }, ops)

def start (s : Inner C M) : Call → Option (Inner C M × List (Op C M))
  | .capabilities refresh => some (s, [.capabilities refresh maxAttempts])
  | .reflectTable source refresh => some (s, [.reflectTable source refresh maxAttempts])
  | .rotateSecret secret => some (s, [.rotateSecret secret])
  | .invalidateMetadata source => some (s, [.invalidateMetadata source])
  | .dispose => some (s, [.dispose])

def engine : Threads (Inner C M) (Op C M) Call := ⟨exec env, start⟩

/-- `Engine::new`, before any call. -/
def fresh (secret : String) : Threads.Config (Inner C M) (Op C M) :=
  ⟨⟨false, ⟨secret, 0, none, ∅⟩, 0, []⟩, fun _ => []⟩

end Algorithm

end Plenora.Engine
