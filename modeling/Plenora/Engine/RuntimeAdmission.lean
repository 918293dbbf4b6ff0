import Plenora.Engine.RuntimeGrammar
import Plenora.Lib.Outcome

/-!
# What an invocation is refused for

The category of a refusal is the first that applies: the grammar, what is announced, the deadline.

    ReadsRfc3339 parse → Refused .protocol ↔ ¬ WellFormed, Refused .unsupported ↔ ...
                                                                    (admitInvocation_verdict)
-/

namespace Plenora.Engine.RuntimeBinding

open Plenora.Core Plenora.Lib Plenora.Lib.Utf8 Plenora.Lib.Patterns RegularExpression
open Plenora.Lib.Rfc3339 (Text Parsed Stamp Zone)

/-! ## What is asked of an invocation -/

namespace RuntimeInvocation

/-- The key has a string of the language. -/
def Holds (invocation : RuntimeInvocation) (key : Text) (L : Language Char) : Prop :=
  ∃ text, invocation.lookup key = some (.string text) ∧ text ∈ L

/-- The key is absent, or has a string of the language. -/
def HoldsIfGiven (invocation : RuntimeInvocation) (key : Text) (L : Language Char) : Prop :=
  invocation.lookup key = none ∨ invocation.Holds key L

end RuntimeInvocation

/-- The texts of an idempotency key. -/
def keyTexts : Language Char :=
  {text | text ≠ [] ∧ (utf8 text).length ≤ maxIdempotencyKeyBytes}

structure WellFormed (invocation : RuntimeInvocation) : Prop where
  messageId : invocation.Holds messageId uuidPattern.matches'
  correlationId : invocation.Holds correlationId uuidPattern.matches'
  causationId : invocation.HoldsIfGiven causationId uuidPattern.matches'
  capabilityName : invocation.Holds capabilityNameKey capabilityNamePattern.matches'
  capabilityVersion : invocation.Holds capabilityVersion versionPattern.matches'
  operation : invocation.Holds operationKey operationPattern.matches'
  operationVersion : invocation.Holds operationVersion versionPattern.matches'
  inputContract : invocation.Holds inputContract contractPattern.matches'
  deadline : invocation.HoldsIfGiven deadlineKey utcTexts
  idempotencyKey : invocation.HoldsIfGiven idempotencyKey keyTexts
  contentType : invocation.contentType ∈ mediaTypePattern.matches'

/-- The reserved values are those of an operation, the content type aside. -/
structure AgreesWith (invocation : RuntimeInvocation) (operation : PublicOperation) : Prop where
  name : invocation.lookup capabilityNameKey = some (.string capabilityName)
  wire : invocation.lookup capabilityVersion =
    some (.string (versionText runtimeBindingVersion))
  id : invocation.lookup operationKey = some (.string operation.id)
  version : invocation.lookup operationVersion = some (.string (versionText operation.version))
  contract : invocation.lookup inputContract = some (.string operation.input.contract)
  idempotency : invocation.lookup idempotencyKey ≠ none → operation.controls.idempotencyKey = true
  deadline : invocation.lookup deadlineKey ≠ none → operation.controls.deadline = true

/-- The values are those of an announced operation, in the JSON envelope. -/
def Agrees (invocation : RuntimeInvocation) : Prop :=
  (∃ operation ∈ runtimeCapabilities, AgreesWith invocation operation) ∧
    invocation.contentType = jsonContentType

/-- The values are those of an announced operation, the content type included. -/
def Announced (invocation : RuntimeInvocation) : Prop :=
  ∃ operation ∈ runtimeCapabilities, AgreesWith invocation operation ∧
    invocation.contentType ∈ operation.input.contentTypes

/-- The moment is before the epoch, or no later than the clock. -/
def Past (s : Stamp) (now : Nat) : Prop :=
  s.value.timestamp < 0 ∨ s.value.timestamp * 10 ^ 9 + s.value.nanos ≤ now

/-- A deadline is given and not in the future. -/
def Expired (invocation : RuntimeInvocation) (now : Nat) : Prop :=
  ∃ s : Stamp, s.WellFormed ∧ invocation.lookup deadlineKey = some (.string s.text) ∧ Past s now

def Refused {α : Type} (category : ErrorCategory) (r : Result α) : Prop :=
  ∃ e, r = .error e ∧ e.category = category

/-! ## The grammar -/

section Grammar

variable {parse : Text → Option Parsed}

theorem get_eq_some {invocation : RuntimeInvocation} {key text : Text} :
    invocation.get key = some text ↔ invocation.lookup key = some (.string text) := by
  unfold RuntimeInvocation.get
  constructor
  · intro h
    split at h
    next text' hlookup =>
      cases h
      exact hlookup
    next => cases h
  · intro h
    rw [h]

theorem required_eq_ok {invocation : RuntimeInvocation} {key text : Text} {test : Text → Bool}
    {L : Language Char} (h : ∀ text, test text = true ↔ text ∈ L) :
    invocation.required key test = .ok text ↔
      invocation.lookup key = some (.string text) ∧ text ∈ L := by
  unfold RuntimeInvocation.required
  rw [← get_eq_some, ← h]
  cases hget : invocation.get key with
  | none => exact iff_of_false (by simp) (by simp)
  | some text' =>
    rw [Option.filter_some]
    by_cases htest : test text' = true
    · rw [if_pos htest]
      constructor
      · intro heq
        cases heq
        exact ⟨rfl, htest⟩
      · rintro ⟨heq, -⟩
        cases heq
        rfl
    · rw [if_neg htest]
      refine iff_of_false (by simp) ?_
      rintro ⟨heq, hmem⟩
      cases heq
      exact htest hmem

theorem required_error {invocation : RuntimeInvocation} {key : Text} {test : Text → Bool}
    {e : DatabaseError} (h : invocation.required key test = .error e) : e.category = .protocol := by
  unfold RuntimeInvocation.required at h
  split at h
  next => cases h
  next =>
    cases h
    rfl

theorem optional_eq_ok {invocation : RuntimeInvocation} {key : Text} {o : Option Text}
    {test : Text → Bool} {L : Language Char} (h : ∀ text, test text = true ↔ text ∈ L) :
    invocation.optional key test = .ok o ↔
      (o = none ∧ invocation.lookup key = none) ∨
        ∃ text, o = some text ∧ invocation.lookup key = some (.string text) ∧ text ∈ L := by
  unfold RuntimeInvocation.optional
  cases hlookup : invocation.lookup key with
  | none => simp [eq_comm]
  | some value =>
    cases value with
    | other raw => exact iff_of_false (by simp) (by simp)
    | string text =>
      by_cases htest : test text = true
      · simp only [if_pos htest]
        constructor
        · intro heq
          cases heq
          exact .inr ⟨text, rfl, rfl, (h text).1 htest⟩
        · rintro (⟨-, heq⟩ | ⟨text', rfl, heq, -⟩)
          · cases heq
          · cases heq
            rfl
      · simp only [if_neg htest]
        refine iff_of_false (by simp) ?_
        rintro (⟨-, heq⟩ | ⟨text', -, heq, hmem⟩)
        · cases heq
        · cases heq
          exact htest ((h text).2 hmem)

theorem optional_error {invocation : RuntimeInvocation} {key : Text} {test : Text → Bool}
    {e : DatabaseError} (h : invocation.optional key test = .error e) : e.category = .protocol := by
  unfold RuntimeInvocation.optional at h
  split at h
  next => cases h
  next =>
    split at h
    next => cases h
    next =>
      cases h
      rfl
  next =>
    cases h
    rfl

/-- A failure of two steps is one of them. -/
theorem bind_error {α β : Type} {x : Result α} {f : α → Result β} {P : DatabaseError → Prop}
    (hx : ∀ e, x = .error e → P e) (hf : ∀ a e, f a = .error e → P e) :
    ∀ e, (x >>= f) = .error e → P e := by
  intro e h
  cases x with
  | error e' =>
    cases h
    exact hx _ rfl
  | ok a => exact hf a e h

theorem grammar_error {invocation : RuntimeInvocation} :
    ∀ e, grammar parse invocation = .error e → e.category = .protocol := by
  refine bind_error (fun _ => required_error) fun _ => bind_error (fun _ => required_error) fun _ =>
    bind_error (fun _ => optional_error) fun _ => bind_error (fun _ => required_error) fun _ =>
    bind_error (fun _ => required_error) fun _ => bind_error (fun _ => required_error) fun _ =>
    bind_error (fun _ => required_error) fun _ => bind_error (fun _ => required_error) fun _ =>
    bind_error (fun _ => optional_error) fun _ => bind_error (fun _ => optional_error) fun _ => ?_
  intro e h
  split at h
  next => cases h
  next =>
    cases h
    rfl

theorem boundedKey_iff (text : Text) : boundedKey text = true ↔ text ∈ keyTexts := by
  unfold boundedKey
  rw [Bool.and_eq_true, decide_eq_true_eq, decide_eq_true_eq]
  exact Iff.rfl

/-- The values are those of the invocation, and well formed. -/
structure Reads (invocation : RuntimeInvocation) (r : Reserved) : Prop where
  messageId : invocation.lookup messageId = some (.string r.messageId) ∧
    r.messageId ∈ uuidPattern.matches'
  correlationId : invocation.lookup correlationId = some (.string r.correlationId) ∧
    r.correlationId ∈ uuidPattern.matches'
  causation : (r.causation = none ∧ invocation.lookup causationId = none) ∨ ∃ text,
    r.causation = some text ∧ invocation.lookup causationId = some (.string text) ∧
      text ∈ uuidPattern.matches'
  capabilityName : invocation.lookup capabilityNameKey = some (.string r.capabilityName) ∧
    r.capabilityName ∈ capabilityNamePattern.matches'
  capabilityVersion : invocation.lookup capabilityVersion = some (.string r.capabilityVersion) ∧
    r.capabilityVersion ∈ versionPattern.matches'
  requested : invocation.lookup operationKey = some (.string r.requested) ∧
    r.requested ∈ operationPattern.matches'
  version : invocation.lookup operationVersion = some (.string r.version) ∧
    r.version ∈ versionPattern.matches'
  contract : invocation.lookup inputContract = some (.string r.contract) ∧
    r.contract ∈ contractPattern.matches'
  deadline : (r.deadline = none ∧ invocation.lookup deadlineKey = none) ∨ ∃ text,
    r.deadline = some text ∧ invocation.lookup deadlineKey = some (.string text) ∧ text ∈ utcTexts
  key : (r.idempotencyKey = none ∧ invocation.lookup idempotencyKey = none) ∨ ∃ text,
    r.idempotencyKey = some text ∧ invocation.lookup idempotencyKey = some (.string text) ∧
      text ∈ keyTexts
  contentType : invocation.contentType ∈ mediaTypePattern.matches'

theorem grammar_eq_ok (hparse : ReadsRfc3339 parse) {invocation : RuntimeInvocation}
    {r : Reserved} : grammar parse invocation = .ok r ↔ Reads invocation r := by
  unfold grammar
  simp only [bind_eq_ok, required_eq_ok canonicalUuid_iff, optional_eq_ok canonicalUuid_iff,
    required_eq_ok wellFormedCapabilityName_iff, required_eq_ok canonicalVersion_iff,
    required_eq_ok wellFormedOperation_iff, required_eq_ok wellFormedContract_iff,
    optional_eq_ok (utcDeadline_iff hparse), optional_eq_ok boundedKey_iff]
  constructor
  · rintro ⟨message, hmessage, correlation, hcorrelation, causation, hcausation, name, hname, wire,
      hwire, requested, hrequested, version, hversion, contract, hcontract, deadline, hdeadline,
      key, hkey, h⟩
    split at h
    next htype =>
      cases h
      exact ⟨hmessage, hcorrelation, hcausation, hname, hwire, hrequested, hversion, hcontract,
        hdeadline, hkey, (wellFormedMediaType_iff _).1 htype⟩
    next => cases h
  · intro h
    refine ⟨_, h.messageId, _, h.correlationId, _, h.causation, _, h.capabilityName, _,
      h.capabilityVersion, _, h.requested, _, h.version, _, h.contract, _, h.deadline, _, h.key, ?_⟩
    rw [if_pos ((wellFormedMediaType_iff _).2 h.contentType)]

theorem holdsIfGiven {invocation : RuntimeInvocation} {key : Text} {L : Language Char} :
    invocation.HoldsIfGiven key L ↔ ∃ o : Option Text,
      (o = none ∧ invocation.lookup key = none) ∨
        ∃ text, o = some text ∧ invocation.lookup key = some (.string text) ∧ text ∈ L := by
  constructor
  · rintro (hnone | ⟨text, hlookup, hmem⟩)
    · exact ⟨none, .inl ⟨rfl, hnone⟩⟩
    · exact ⟨some text, .inr ⟨text, rfl, hlookup, hmem⟩⟩
  · rintro ⟨o, ⟨-, hnone⟩ | ⟨text, -, hlookup, hmem⟩⟩
    · exact .inl hnone
    · exact .inr ⟨text, hlookup, hmem⟩

/-- **The reserved values can be read exactly when they are well formed.** -/
theorem wellFormed_iff {invocation : RuntimeInvocation} :
    WellFormed invocation ↔ ∃ r, Reads invocation r := by
  constructor
  · intro h
    obtain ⟨message, hmessage⟩ := h.messageId
    obtain ⟨correlation, hcorrelation⟩ := h.correlationId
    obtain ⟨causation, hcausation⟩ := holdsIfGiven.1 h.causationId
    obtain ⟨name, hname⟩ := h.capabilityName
    obtain ⟨wire, hwire⟩ := h.capabilityVersion
    obtain ⟨requested, hrequested⟩ := h.operation
    obtain ⟨version, hversion⟩ := h.operationVersion
    obtain ⟨contract, hcontract⟩ := h.inputContract
    obtain ⟨deadline, hdeadline⟩ := holdsIfGiven.1 h.deadline
    obtain ⟨key, hkey⟩ := holdsIfGiven.1 h.idempotencyKey
    exact ⟨⟨message, correlation, causation, name, wire, requested, version, contract, deadline,
      key⟩, hmessage, hcorrelation, hcausation, hname, hwire, hrequested, hversion, hcontract,
      hdeadline, hkey, h.contentType⟩
  · rintro ⟨r, h⟩
    exact ⟨⟨_, h.messageId⟩, ⟨_, h.correlationId⟩, holdsIfGiven.2 ⟨_, h.causation⟩,
      ⟨_, h.capabilityName⟩, ⟨_, h.capabilityVersion⟩, ⟨_, h.requested⟩, ⟨_, h.version⟩,
      ⟨_, h.contract⟩, holdsIfGiven.2 ⟨_, h.deadline⟩, holdsIfGiven.2 ⟨_, h.key⟩, h.contentType⟩

end Grammar

/-! ## What is announced -/

/-- An element with the property is the one found, where only one has it. -/
theorem find?_eq_some {α : Type} {p : α → Bool} {l : List α} {a : α}
    (honly : ∀ x ∈ l, ∀ y ∈ l, p x = true → p y = true → x = y) :
    l.find? p = some a ↔ a ∈ l ∧ p a = true := by
  constructor
  · intro h
    exact ⟨List.mem_of_find?_eq_some h, List.find?_some h⟩
  · rintro ⟨hmem, hp⟩
    cases hfind : l.find? p with
    | none => exact absurd hp (List.find?_eq_none.1 hfind a hmem)
    | some b =>
      rw [honly b (List.mem_of_find?_eq_some hfind) a hmem (List.find?_some hfind) hp]

theorem runtimeCapabilities_ids :
    ∀ x ∈ runtimeCapabilities, ∀ y ∈ runtimeCapabilities, x.id = y.id → x = y := by
  have hids : (runtimeCapabilities.map (·.id)).Nodup := by decide +kernel
  intro x hx y hy h
  exact List.inj_on_of_nodup_map hids hx hy h

/-- What `correspondence` asks of the values. -/
structure Matches (contentType : Text) (r : Reserved) (operation : PublicOperation) : Prop where
  name : r.capabilityName = capabilityName
  wire : r.capabilityVersion = versionText runtimeBindingVersion
  id : operation.id = r.requested
  version : versionText operation.version = r.version
  contract : r.contract = operation.input.contract
  json : contentType = jsonContentType
  idempotency : r.idempotencyKey.isSome = true → operation.controls.idempotencyKey = true
  deadline : r.deadline.isSome = true → operation.controls.deadline = true

theorem correspondence_eq_ok {contentType : Text} {r : Reserved} {operation : PublicOperation} :
    correspondence contentType r = .ok operation ↔
      operation ∈ runtimeCapabilities ∧ Matches contentType r operation := by
  have hfound : ∀ operation, (runtimeCapabilities.find? fun operation =>
      operation.id = r.requested && versionText operation.version = r.version) = some operation ↔
      operation ∈ runtimeCapabilities ∧ operation.id = r.requested ∧
        versionText operation.version = r.version := by
    intro operation
    rw [find?_eq_some]
    · simp
    · intro x hx y hy hpx hpy
      simp only [Bool.and_eq_true, decide_eq_true_eq] at hpx hpy
      exact runtimeCapabilities_ids x hx y hy (hpx.1.trans hpy.1.symm)
  unfold correspondence
  split
  next hname =>
    refine iff_of_false (by simp) ?_
    rintro ⟨-, h⟩
    exact hname.elim (fun hne => hne h.name) fun hne => hne h.wire
  next hname =>
    rw [not_or, not_not, not_not] at hname
    split
    next hnone =>
      refine iff_of_false (by simp) ?_
      rintro ⟨hmem, h⟩
      rw [(hfound operation).2 ⟨hmem, h.id, h.version⟩] at hnone
      cases hnone
    next found hsome =>
      -- the only operation that may match is the one found
      have honly : ∀ {other}, other ∈ runtimeCapabilities ∧ Matches contentType r other →
          other = found := by
        rintro other ⟨hmem, h⟩
        rw [(hfound other).2 ⟨hmem, h.id, h.version⟩] at hsome
        exact Option.some.inj hsome
      obtain ⟨hmem, hid, hversion⟩ := (hfound found).1 hsome
      split
      next hcontract =>
        refine iff_of_false (by simp) fun h => hcontract ?_
        rw [← honly h]
        exact h.2.contract
      next hcontract =>
        split
        next hjson => exact iff_of_false (by simp) fun h => hjson h.2.json
        next hjson =>
          split
          next hkey =>
            refine iff_of_false (by simp) fun h => hkey.2 ?_
            rw [← honly h]
            exact h.2.idempotency hkey.1
          next hkey =>
            split
            next hdeadline =>
              refine iff_of_false (by simp) fun h => hdeadline.2 ?_
              rw [← honly h]
              exact h.2.deadline hdeadline.1
            next hdeadline =>
              constructor
              · intro h
                cases h
                exact ⟨hmem, hname.1, hname.2, hid, hversion, not_not.1 hcontract,
                  not_not.1 hjson, fun hk => not_not.1 fun hn => hkey ⟨hk, hn⟩,
                  fun hd => not_not.1 fun hn => hdeadline ⟨hd, hn⟩⟩
              · intro h
                rw [honly h]

theorem correspondence_error {contentType : Text} {r : Reserved} {e : DatabaseError}
    (h : correspondence contentType r = .error e) : e.category = .unsupported := by
  unfold correspondence at h
  repeat' split at h
  all_goals
    cases h
    try rfl

/-- A value read is the only one its key has. -/
theorem lookup_iff {invocation : RuntimeInvocation} {key text : Text} {L : Language Char}
    (h : invocation.lookup key = some (.string text) ∧ text ∈ L) (other : Text) :
    invocation.lookup key = some (.string other) ↔ text = other := by
  rw [h.1]
  simp

theorem isSome_iff {invocation : RuntimeInvocation} {key : Text} {L : Language Char}
    {o : Option Text} (h : (o = none ∧ invocation.lookup key = none) ∨ ∃ text,
      o = some text ∧ invocation.lookup key = some (.string text) ∧ text ∈ L) :
    invocation.lookup key ≠ none ↔ o.isSome = true := by
  rcases h with ⟨rfl, hnone⟩ | ⟨text, rfl, hlookup, -⟩
  · simp [hnone]
  · simp [hlookup]

theorem agrees_iff {invocation : RuntimeInvocation} {r : Reserved} (h : Reads invocation r) :
    Agrees invocation ↔
      ∃ operation ∈ runtimeCapabilities, Matches invocation.contentType r operation := by
  constructor
  · rintro ⟨⟨operation, hmem, ha⟩, hjson⟩
    exact ⟨operation, hmem, (lookup_iff h.capabilityName _).1 ha.name,
      (lookup_iff h.capabilityVersion _).1 ha.wire, ((lookup_iff h.requested _).1 ha.id).symm,
      ((lookup_iff h.version _).1 ha.version).symm, (lookup_iff h.contract _).1 ha.contract, hjson,
      fun hk => ha.idempotency ((isSome_iff h.key).2 hk),
      fun hd => ha.deadline ((isSome_iff h.deadline).2 hd)⟩
  · rintro ⟨operation, hmem, hm⟩
    exact ⟨⟨operation, hmem, (lookup_iff h.capabilityName _).2 hm.name,
      (lookup_iff h.capabilityVersion _).2 hm.wire, (lookup_iff h.requested _).2 hm.id.symm,
      (lookup_iff h.version _).2 hm.version.symm, (lookup_iff h.contract _).2 hm.contract,
      fun hk => hm.idempotency ((isSome_iff h.key).1 hk),
      fun hd => hm.deadline ((isSome_iff h.deadline).1 hd)⟩, hm.json⟩

/-! ## The deadline -/

section Deadline

variable {parse : Text → Option Parsed} (now : Nat) (monotonic : Nat → Option Nat)

/-- A moment of the calendar is one of the system clock. -/
theorem sinceEpoch_value {s : Stamp} (hs : s.WellFormed) (h : ¬ s.value.timestamp < 0) :
    ∃ deadline : Nat, sinceEpoch s.value.timestamp.toNat s.value.nanos = some deadline ∧
      (deadline : Int) = s.value.timestamp * 10 ^ 9 + s.value.nanos := by
  have hseconds := Rfc3339.timestamp_lt hs
  have hnanos := Rfc3339.nanos_lt hs
  unfold sinceEpoch
  rw [if_pos (by omega)]
  exact ⟨_, rfl, by push_cast; omega⟩

/-- A deadline that has passed is refused as such; one to come, only by the clock. -/
theorem deadlineInstant_refused (hparse : ReadsRfc3339 parse) {s : Stamp} (hs : s.WellFormed) :
    (Past s now → deadlineInstant parse now monotonic s.text = .error deadlineExpired) ∧
    (¬ Past s now → ∀ e, deadlineInstant parse now monotonic s.text = .error e →
      e.category = .internal) := by
  unfold deadlineInstant Past
  rw [hparse.reads s hs]
  dsimp only
  by_cases hbefore : s.value.timestamp < 0
  · rw [if_pos hbefore]
    exact ⟨fun _ => rfl, fun h => absurd (.inl hbefore) h⟩
  · obtain ⟨deadline, hdeadline, hvalue⟩ := sinceEpoch_value hs hbefore
    rw [if_neg hbefore, hdeadline]
    dsimp only
    by_cases hle : deadline ≤ now
    · rw [if_pos hle]
      exact ⟨fun _ => rfl, fun h => absurd (.inr (by omega)) h⟩
    · rw [if_neg hle]
      constructor
      · rintro (h | h)
        · exact absurd h hbefore
        · omega
      · intro _ e he
        split at he
        next => cases he
        next =>
          cases he
          rfl

/-- A deadline is refused as passed exactly when it is; it is never malformed at this point. -/
theorem remaining_refused (hparse : ReadsRfc3339 parse) {invocation : RuntimeInvocation}
    {r : Reserved} (h : Reads invocation r) :
    (Refused .timeout (remaining parse now monotonic r.deadline) ↔ Expired invocation now) ∧
    ∀ e, remaining parse now monotonic r.deadline = .error e →
      e.category ≠ .protocol ∧ e.category ≠ .unsupported := by
  rcases h.deadline with ⟨hnone, hlookup⟩ | ⟨text, hsome, hlookup, s, hs, hutc, rfl⟩
  · rw [hnone]
    refine ⟨iff_of_false ?_ ?_, fun e he => by cases he⟩
    · rintro ⟨e, he, -⟩
      cases he
    · rintro ⟨s, -, hgiven, -⟩
      rw [hlookup] at hgiven
      cases hgiven
  · rw [hsome]
    have hexpired : Expired invocation now ↔ Past s now := by
      constructor
      · rintro ⟨s', hs', hgiven, hpast⟩
        rw [hlookup] at hgiven
        have hsame := Rfc3339.partsOf_text hs
        rw [Value.string.inj (Option.some.inj hgiven), Rfc3339.partsOf_text hs'] at hsame
        rwa [← hsame]
      · intro hpast
        exact ⟨s, hs, hlookup, hpast⟩
    rw [hexpired]
    obtain ⟨hrefused, hother⟩ := deadlineInstant_refused now monotonic
      hparse hs
    show (Refused .timeout ((deadlineInstant parse now monotonic s.text).map some) ↔ _) ∧ ∀ e,
      (deadlineInstant parse now monotonic s.text).map some = .error e → _
    by_cases hpast : Past s now
    · rw [hrefused hpast]
      refine ⟨iff_of_true ⟨_, rfl, rfl⟩ hpast, fun e he => ?_⟩
      cases he
      exact ⟨by decide, by decide⟩
    · have hinternal : ∀ e, (deadlineInstant parse now monotonic s.text).map some = .error e →
          e.category = .internal := by
        intro e he
        cases hinstant : deadlineInstant parse now monotonic s.text with
        | error e' =>
          rw [hinstant] at he
          cases he
          exact hother hpast _ hinstant
        | ok instant =>
          rw [hinstant] at he
          cases he
      refine ⟨iff_of_false ?_ hpast, fun e he => ?_⟩
      · rintro ⟨e, he, hcategory⟩
        rw [hinternal e he] at hcategory
        cases hcategory
      · rw [hinternal e he]
        exact ⟨by decide, by decide⟩

end Deadline

/-! ## The verdict -/

/-- The recognisers accept the languages of the patterns. -/
structure Recognised (parse : Text → Option Parsed) : Prop where
  version : ∀ text, canonicalVersion text = true ↔ text ∈ versionPattern.matches'
  operation : ∀ text, wellFormedOperation text = true ↔ text ∈ operationPattern.matches'
  capabilityName : ∀ text,
    wellFormedCapabilityName text = true ↔ text ∈ capabilityNamePattern.matches'
  contract : ∀ text, wellFormedContract text = true ↔ text ∈ contractPattern.matches'
  mediaType : ∀ text, wellFormedMediaType text = true ↔ text ∈ mediaTypePattern.matches'
  uuid : ∀ text, canonicalUuid text = true ↔ text ∈ uuidPattern.matches'
  deadline : ∀ text, utcDeadline parse text = true ↔ text ∈ utcTexts
  key : ∀ text, boundedKey text = true ↔ text ∈ keyTexts

/-- The identity has the values that are well formed, as they are, and no others. -/
structure Reflects (invocation : RuntimeInvocation) (identity : RuntimeResultMetadata) : Prop where
  causationId : ∀ text, identity.causationId = some text ↔
    invocation.lookup messageId = some (.string text) ∧ text ∈ uuidPattern.matches'
  operation : ∀ text, identity.operation = some text ↔
    invocation.lookup operationKey = some (.string text) ∧ text ∈ operationPattern.matches'
  operationVersion : ∀ text, identity.operationVersion = some text ↔
    invocation.lookup operationVersion = some (.string text) ∧ text ∈ versionPattern.matches'
  correlationId : ∀ text, identity.correlationId = some text ↔
    invocation.lookup correlationId = some (.string text) ∧ text ∈ uuidPattern.matches'
  outputContract : identity.outputContract = errorContract

theorem canonical_eq_some {invocation : RuntimeInvocation} {key : Text} {test : Text → Bool}
    {L : Language Char} (h : ∀ text, test text = true ↔ text ∈ L) (text : Text) :
    canonical invocation key test = some text ↔
      invocation.lookup key = some (.string text) ∧ text ∈ L := by
  unfold canonical
  rw [Option.filter_eq_some_iff, get_eq_some, h]

theorem resultIdentity_reflects (derived : RuntimeInvocation → Text)
    (invocation : RuntimeInvocation) :
    Reflects invocation (resultIdentity derived invocation) :=
  ⟨canonical_eq_some canonicalUuid_iff, canonical_eq_some wellFormedOperation_iff,
    canonical_eq_some canonicalVersion_iff, canonical_eq_some canonicalUuid_iff, rfl⟩

section Verdict

variable {parse : Text → Option Parsed} (now : Nat) (monotonic : Nat → Option Nat)

/-- An invocation that is not well formed is refused by the grammar. -/
theorem admitInvocation_malformed (hparse : ReadsRfc3339 parse) {invocation : RuntimeInvocation}
    (h : ¬ WellFormed invocation) :
    ∃ e, admitInvocation parse now monotonic invocation = .error e ∧ e.category = .protocol := by
  cases hgrammar : grammar parse invocation with
  | ok r => exact absurd (wellFormed_iff.2 ⟨r, (grammar_eq_ok hparse).1 hgrammar⟩) h
  | error e =>
    refine ⟨e, ?_, grammar_error e hgrammar⟩
    unfold admitInvocation
    rw [hgrammar]
    rfl

/-- One that is well formed is refused by what is announced, or else by the deadline. -/
theorem admitInvocation_wellFormed (hparse : ReadsRfc3339 parse) {invocation : RuntimeInvocation}
    {r : Reserved} (h : Reads invocation r) :
    (¬ Agrees invocation → ∃ e, admitInvocation parse now monotonic invocation = .error e ∧
      e.category = .unsupported) ∧
    (Agrees invocation → ∀ e, admitInvocation parse now monotonic invocation = .error e ↔
      remaining parse now monotonic r.deadline = .error e) := by
  unfold admitInvocation
  rw [(grammar_eq_ok hparse).2 h, ok_bind, agrees_iff h]
  cases hcorrespondence : correspondence invocation.contentType r with
  | ok operation =>
    refine ⟨fun hnot => absurd ⟨operation, correspondence_eq_ok.1 hcorrespondence⟩ hnot, ?_⟩
    intro _ e
    rw [ok_bind]
    cases remaining parse now monotonic r.deadline with
    | ok deadline => exact iff_of_false (fun he => by cases he) (fun he => by cases he)
    | error e' =>
      constructor
      · intro he
        cases he
        rfl
      · intro he
        cases he
        rfl
  | error e =>
    refine ⟨fun _ => ⟨e, rfl, correspondence_error hcorrespondence⟩, ?_⟩
    rintro ⟨operation, hmem, hmatches⟩
    rw [correspondence_eq_ok.2 ⟨hmem, hmatches⟩] at hcorrespondence
    cases hcorrespondence

end Verdict

/-- **An invocation is refused by the grammar, by what is announced and by its deadline, in this
order; the recognisers accept the languages of their patterns, and the identity of the result has
the values that are well formed.** -/
theorem admitInvocation_verdict (parse : Text → Option Parsed) (hparse : ReadsRfc3339 parse)
    (now : Nat) (monotonic : Nat → Option Nat) (derived : RuntimeInvocation → Text)
    (invocation : RuntimeInvocation) :
    (Refused .protocol (admitInvocation parse now monotonic invocation) ↔
      ¬ WellFormed invocation) ∧
    (Refused .unsupported (admitInvocation parse now monotonic invocation) ↔
      WellFormed invocation ∧ ¬ Agrees invocation) ∧
    (Refused .timeout (admitInvocation parse now monotonic invocation) ↔
      WellFormed invocation ∧ Agrees invocation ∧ Expired invocation now) ∧
    Recognised parse ∧ Reflects invocation (resultIdentity derived invocation) := by
  have hwhole : (Refused .protocol (admitInvocation parse now monotonic invocation) ↔
      ¬ WellFormed invocation) ∧
    (Refused .unsupported (admitInvocation parse now monotonic invocation) ↔
      WellFormed invocation ∧ ¬ Agrees invocation) ∧
    (Refused .timeout (admitInvocation parse now monotonic invocation) ↔
      WellFormed invocation ∧ Agrees invocation ∧ Expired invocation now) := by
    -- two categories of one refusal are the same
    have hcategory {r : Result Admitted} {e : DatabaseError} (he : r = .error e)
        (category : ErrorCategory) : Refused category r ↔ e.category = category := by
      constructor
      · rintro ⟨e', he', hcat⟩
        rw [he] at he'
        cases he'
        exact hcat
      · intro hcat
        exact ⟨e, he, hcat⟩
    by_cases hwell : WellFormed invocation
    · obtain ⟨r, hr⟩ := wellFormed_iff.1 hwell
      obtain ⟨hnot, hagrees⟩ := admitInvocation_wellFormed now monotonic
        hparse hr
      by_cases hag : Agrees invocation
      · obtain ⟨hexpired, hother⟩ := remaining_refused now monotonic
          hparse hr
        refine ⟨iff_of_false ?_ (not_not.2 hwell), iff_of_false ?_ fun h => h.2 hag, ?_⟩
        · rintro ⟨e, he, hcat⟩
          exact (hother e ((hagrees hag e).1 he)).1 hcat
        · rintro ⟨e, he, hcat⟩
          exact (hother e ((hagrees hag e).1 he)).2 hcat
        · rw [and_iff_right hwell, and_iff_right hag, ← hexpired]
          exact exists_congr fun e => and_congr_left fun _ => hagrees hag e
      · obtain ⟨e, he, hcat⟩ := hnot hag
        rw [hcategory he, hcategory he, hcategory he, hcat]
        exact ⟨iff_of_false (by decide) (not_not.2 hwell), iff_of_true rfl ⟨hwell, hag⟩,
          iff_of_false (by decide) fun h => hag h.2.1⟩
    · obtain ⟨e, he, hcat⟩ := admitInvocation_malformed now monotonic
        hparse hwell
      rw [hcategory he, hcategory he, hcategory he, hcat]
      exact ⟨iff_of_true rfl hwell, iff_of_false (by decide) fun h => hwell h.1,
        iff_of_false (by decide) fun h => hwell h.1⟩
  obtain ⟨hprotocol, hunsupported, htimeout⟩ := hwhole
  exact ⟨hprotocol, hunsupported, htimeout,
    ⟨canonicalVersion_iff, wellFormedOperation_iff, wellFormedCapabilityName_iff,
      wellFormedContract_iff, wellFormedMediaType_iff, canonicalUuid_iff, utcDeadline_iff hparse,
      boundedKey_iff⟩, resultIdentity_reflects derived invocation⟩

theorem readsRfc3339_read : ReadsRfc3339 Rfc3339.read where
  reads _ hs := Rfc3339.read_text hs
  only _ _ h _ := Rfc3339.read_sound h

/-- An invocation of `database.write` with a stream of batches, which the catalogue announces. -/
def arrowWrite : RuntimeInvocation where
  contentType := "application/vnd.apache.arrow.stream".toList
  metadata :=
    [(messageId, .string "0123abcd-0000-4000-8000-000000000001".toList),
      (correlationId, .string "0123abcd-0000-4000-8000-000000000002".toList),
      (capabilityNameKey, .string capabilityName),
      (capabilityVersion, .string "1".toList),
      (operationKey, .string "database.write".toList),
      (operationVersion, .string "1".toList),
      (inputContract, .string "plenora-database-write-input-v1".toList)]
  payload := .string []

theorem arrowWrite_wellFormed : WellFormed arrowWrite where
  messageId := ⟨_, rfl, (canonicalUuid_iff _).1 (by decide +kernel)⟩
  correlationId := ⟨_, rfl, (canonicalUuid_iff _).1 (by decide +kernel)⟩
  causationId := .inl rfl
  capabilityName := ⟨_, rfl, (wellFormedCapabilityName_iff _).1 (by decide +kernel)⟩
  capabilityVersion := ⟨_, rfl, (canonicalVersion_iff _).1 (by decide +kernel)⟩
  operation := ⟨_, rfl, (wellFormedOperation_iff _).1 (by decide +kernel)⟩
  operationVersion := ⟨_, rfl, (canonicalVersion_iff _).1 (by decide +kernel)⟩
  inputContract := ⟨_, rfl, (wellFormedContract_iff _).1 (by decide +kernel)⟩
  deadline := .inl rfl
  idempotencyKey := .inl rfl
  contentType := (wellFormedMediaType_iff _).1 (by decide +kernel)

/-- The invocation is refused as well formed and not announced, in the JSON envelope alone. -/
theorem admitInvocation_verdict_arrowWrite : WellFormed arrowWrite ∧
    Refused .unsupported (admitInvocation Rfc3339.read 0 some arrowWrite) ∧
    Reflects arrowWrite (resultIdentity (fun _ => []) arrowWrite) := by
  obtain ⟨-, hunsupported, -, -, hreflects⟩ :=
    admitInvocation_verdict Rfc3339.read readsRfc3339_read 0 some (fun _ => []) arrowWrite
  refine ⟨arrowWrite_wellFormed, hunsupported.2 ⟨arrowWrite_wellFormed, ?_⟩, hreflects⟩
  rintro ⟨-, hjson⟩
  exact absurd hjson (by decide)

/-- An announced content type is refused as unsupported. -/
theorem admitInvocation_refuses_announced : WellFormed arrowWrite ∧ Announced arrowWrite ∧
    ∃ e, admitInvocation Rfc3339.read 0 some arrowWrite = .error e ∧
      e.category = .unsupported := by
  refine ⟨arrowWrite_wellFormed, ?_, ?_⟩
  · refine ⟨(runtimeCapabilities[6]?).get (by decide +kernel), by decide +kernel,
      ⟨by decide +kernel, by decide +kernel, by decide +kernel, by decide +kernel,
        by decide +kernel, fun h => absurd (by decide +kernel) h,
        fun h => absurd (by decide +kernel) h⟩, by decide +kernel⟩
  · obtain ⟨r, hr⟩ := wellFormed_iff.1 arrowWrite_wellFormed
    refine (admitInvocation_wellFormed 0 some readsRfc3339_read hr).1 ?_
    rintro ⟨-, hjson⟩
    exact absurd hjson (by decide)

end Plenora.Engine.RuntimeBinding
