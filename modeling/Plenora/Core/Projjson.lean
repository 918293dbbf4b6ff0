import Plenora.Core.CrsDefinition
import Plenora.Lib.JsonGrammar

/-!
# Reading a PROJJSON definition

`valida` checks the whole document without recursion: a stack of the open containers, and the keys
of all open objects in one list, each with its hash.  `radice` then walks the members of the root
and skips what it does not keep.  The cursor is the text that is left.

    identifiers hash text = some pairs ↔ text is a document and gives pairs
                                                          (ProjjsonIdentifiers.identifiers_iff)
-/

namespace Plenora.Core.Projjson

open Plenora.Lib.Json Plenora.Lib.Utf8
open Plenora.Core.CrsDefinition (DefinitionText withinSizeLimit)

/-! ## The cursor -/

def spazi (t : Text) : Text := t.dropWhile isSpace

def atteso (c : Char) : Text → Option Text
  | [] => none
  | d :: rest => if d = c then some rest else none

def esadecimale (t : Text) : Option (Nat × Text) :=
  if (t.take 4).length = 4 then (hexNumber (t.take 4)).map fun n => (n, t.drop 4) else none

/-- The code behind `\u`.  A high surrogate that no low one follows stays alone, and what follows
it is read again. -/
def codice (t : Text) : Option (Nat × Text) :=
  (esadecimale t).bind fun r =>
    if isHigh r.1 then
      match r.2 with
      | '\\' :: 'u' :: more => (esadecimale more).map fun low =>
        if isLow low.1 then (ofPair r.1 low.1, low.2) else r
      | _ => some r
    else some r

def escape : Text → Option (Nat × Text)
  | [] => none
  | e :: rest => if e = 'u' then codice rest else (escaped e).map fun c => (c.toNat, rest)

/-- The next code point of a string, or `none` for its closing quote. -/
def punto : Text → Option (Option Nat × Text)
  | [] => none
  | c :: rest =>
    if c = '"' then some (none, rest)
    else if c = '\\' then (escape rest).map fun r => (some r.1, r.2)
    else if c.toNat < 0x20 then none
    else some (some c.toNat, rest)

/-! ### A code point is shorter than its text -/

theorem spazi_le (t : Text) : (spazi t).length ≤ t.length := t.length_dropWhile_le _

theorem atteso_lt {c : Char} {t rest : Text} (h : atteso c t = some rest) :
    rest.length < t.length := by
  unfold atteso at h
  split at h
  next => cases h
  next =>
    split at h
    next =>
      cases h
      exact Nat.lt_succ_self _
    next => cases h

theorem esadecimale_lt {t rest : Text} {n : Nat} (h : esadecimale t = some (n, rest)) :
    rest.length < t.length := by
  unfold esadecimale at h
  split at h
  next hlength =>
    obtain ⟨m, -, heq⟩ := Option.map_eq_some_iff.1 h
    cases heq
    rw [List.length_take] at hlength
    rw [List.length_drop]
    omega
  next => cases h

theorem codice_lt {t rest : Text} {n : Nat} (h : codice t = some (n, rest)) :
    rest.length < t.length := by
  unfold codice at h
  obtain ⟨⟨m, more⟩, hread, h⟩ := Option.bind_eq_some_iff.1 h
  have hlt := esadecimale_lt hread
  split at h
  next =>
    split at h
    next after heq =>
      obtain ⟨⟨low, last⟩, hlow, hr⟩ := Option.map_eq_some_iff.1 h
      have hlast := esadecimale_lt hlow
      dsimp only at heq
      subst heq
      simp only [List.length_cons] at hlt
      have hrest := congrArg Prod.snd hr
      split at hrest
      next =>
        dsimp only at hrest
        rw [← hrest]
        omega
      next =>
        dsimp only at hrest
        rw [← hrest]
        simp only [List.length_cons]
        omega
    next =>
      cases h
      exact hlt
  next =>
    cases h
    exact hlt

theorem punto_lt {t rest : Text} {o : Option Nat} (h : punto t = some (o, rest)) :
    rest.length < t.length := by
  unfold punto at h
  split at h
  next => cases h
  next c more =>
    split at h
    next =>
      cases h
      exact Nat.lt_succ_self _
    next =>
    split at h
    next =>
      obtain ⟨⟨n, last⟩, hescape, heq⟩ := Option.map_eq_some_iff.1 h
      cases heq
      unfold escape at hescape
      split at hescape
      next => cases hescape
      next e more =>
        simp only [List.length_cons]
        split at hescape
        next =>
          have := codice_lt hescape
          omega
        next =>
          obtain ⟨c, -, heq⟩ := Option.map_eq_some_iff.1 hescape
          cases heq
          omega
    next =>
    split at h
    next => cases h
    next =>
      cases h
      exact Nat.lt_succ_self _

/-! ## Strings -/

/-- The code points up to the closing quote. -/
def scorri (t : Text) : Option (List Nat × Text) :=
  match _h : punto t with
  | none => none
  | some (none, rest) => some ([], rest)
  | some (some n, rest) => (scorri rest).map fun r => (n :: r.1, r.2)
termination_by t.length
decreasing_by exact punto_lt _h

/-- The code points of a string, from its opening quote on. -/
def stringa (t : Text) : Option (List Nat × Text) := (atteso '"' t).bind scorri

/-- `char::from_u32`. -/
def fromU32 (n : Nat) : Option Char := if n.isValidChar then some (Char.ofNat n) else none

/-- The text of these code points, kept while there is no surrogate among them. -/
def componi (ps : List Nat) : DefinitionText :=
  let (text, surrogati) := ps.foldl (fun (s : Text × Bool) n =>
    match fromU32 n with
    | some c => if s.2 then s else (s.1 ++ [c], s.2)
    | none => (s.1, true)) ([], false)
  if surrogati then .loneSurrogates else .unicode text

def testo (t : Text) : Option (DefinitionText × Text) :=
  (stringa t).map fun r => (componi r.1, r.2)

def saltaStringa (t : Text) : Option Text := (stringa t).map Prod.snd

def impronta (hash : List Nat → UInt64) (t : Text) : Option (UInt64 × Text) :=
  (stringa t).map fun r => (hash r.1, r.2)

/-- How many bytes of a name are kept. -/
def tenuti : Nat := 16

/-- The place of a name among others, from its first characters. -/
def trovato (nomi : List String) (ps : List Nat) : Option Nat :=
  let (inizio, troppo) := ps.foldl (fun (s : Text × Bool) n =>
    match fromU32 n with
    | some c => if ¬ s.2 ∧ (utf8 s.1).length < tenuti then (s.1 ++ [c], s.2) else (s.1, true)
    | none => (s.1, true)) ([], false)
  if troppo then none else nomi.findIdx? fun nome => nome.toList = inizio

def nomeFra (nomi : List String) (t : Text) : Option (Option Nat × Text) :=
  (stringa t).map fun r => (trovato nomi r.1, r.2)

/-! ## Scalars -/

def cifre (t : Text) : Text := t.dropWhile Char.isDigit

def segno : Text → Text × Text
  | '-' :: rest => (['-'], rest)
  | t => ([], t)

def intera : Text → Option (Text × Text)
  | [] => none
  | c :: rest =>
    if c = '0' then some (['0'], rest)
    else if c.isDigit then some ((c :: rest).takeWhile Char.isDigit, cifre (c :: rest))
    else none

def frazione : Text → Text
  | '.' :: d :: rest => if d.isDigit then cifre (d :: rest) else '.' :: d :: rest
  | t => t

/-- The sign of an exponent is skipped. -/
def piuMeno : Text → Text
  | [] => []
  | c :: rest => if c = '+' ∨ c = '-' then rest else c :: rest

def esponente : Text → Text
  | [] => []
  | e :: rest =>
    if (e = 'e' ∨ e = 'E') ∧ (piuMeno rest).head?.any Char.isDigit then cifre (piuMeno rest)
    else e :: rest

/-- The text of an integer, or `none` for a decimal. -/
def numero (t : Text) : Option (Option Text × Text) :=
  (intera (segno t).2).map fun r =>
    let dopo := esponente (frazione r.2)
    (if dopo.length = r.2.length then some ((segno t).1 ++ r.1) else none, dopo)

def letterale (parola : String) (t : Text) : Option Text :=
  if t.take parola.toList.length = parola.toList then some (t.drop parola.toList.length) else none

/-- What follows a scalar; `false` before a container, which stays. -/
def saltaScalare : Text → Option (Bool × Text)
  | [] => none
  | c :: rest =>
    if c = '{' ∨ c = '[' then some (false, c :: rest)
    else if c = '"' then (saltaStringa (c :: rest)).map fun r => (true, r)
    else if c = '-' ∨ c.isDigit then (numero (c :: rest)).map fun r => (true, r.2)
    else if c = 't' then (letterale "true" (c :: rest)).map fun r => (true, r)
    else if c = 'f' then (letterale "false" (c :: rest)).map fun r => (true, r)
    else if c = 'n' then (letterale "null" (c :: rest)).map fun r => (true, r)
    else none

/-! ### A scalar is shorter than its text -/

theorem scorri_lt {t rest : Text} {ps : List Nat} (h : scorri t = some (ps, rest)) :
    rest.length < t.length := by
  fun_induction scorri t generalizing ps with
  | case1 => cases h
  | case2 t more hpunto =>
    cases h
    exact punto_lt hpunto
  | case3 t n more hpunto ih =>
    obtain ⟨⟨qs, last⟩, hrest, heq⟩ := Option.map_eq_some_iff.1 h
    cases heq
    exact Nat.lt_trans (ih hrest) (punto_lt hpunto)

theorem stringa_lt {t rest : Text} {ps : List Nat} (h : stringa t = some (ps, rest)) :
    rest.length < t.length := by
  obtain ⟨more, hquote, hscorri⟩ := Option.bind_eq_some_iff.1 h
  exact Nat.lt_trans (scorri_lt hscorri) (atteso_lt hquote)

theorem saltaStringa_lt {t rest : Text} (h : saltaStringa t = some rest) :
    rest.length < t.length := by
  obtain ⟨⟨ps, more⟩, hstringa, rfl⟩ := Option.map_eq_some_iff.1 h
  exact stringa_lt hstringa

theorem cifre_le (t : Text) : (cifre t).length ≤ t.length := t.length_dropWhile_le _

theorem frazione_le (t : Text) : (frazione t).length ≤ t.length := by
  unfold frazione
  split
  next d rest =>
    split
    next =>
      have := cifre_le (d :: rest)
      exact Nat.le_succ_of_le this
    next => exact Nat.le_refl _
  next => exact Nat.le_refl _

theorem piuMeno_le (t : Text) : (piuMeno t).length ≤ t.length := by
  unfold piuMeno
  split
  next => exact Nat.le_refl _
  next =>
    split
    next => exact Nat.le_succ _
    next => exact Nat.le_refl _

theorem esponente_le (t : Text) : (esponente t).length ≤ t.length := by
  unfold esponente
  split
  next => exact Nat.le_refl _
  next e rest =>
    split
    next =>
      have := cifre_le (piuMeno rest)
      have := piuMeno_le rest
      rw [List.length_cons]
      omega
    next => exact Nat.le_refl _

theorem intera_lt {t rest digits : Text} (h : intera t = some (digits, rest)) :
    rest.length < t.length := by
  unfold intera at h
  split at h
  next => cases h
  next c more =>
    split at h
    next =>
      cases h
      exact Nat.lt_succ_self _
    next =>
    split at h
    next hdigit =>
      cases h
      unfold cifre
      rw [List.dropWhile_cons_of_pos hdigit, List.length_cons]
      exact Nat.lt_succ_of_le (more.length_dropWhile_le _)
    next => cases h

theorem segno_le (t : Text) : (segno t).2.length ≤ t.length := by
  unfold segno
  split
  next => exact Nat.le_succ _
  next => exact Nat.le_refl _

theorem numero_lt {t rest : Text} {o : Option Text} (h : numero t = some (o, rest)) :
    rest.length < t.length := by
  obtain ⟨⟨digits, more⟩, hintera, heq⟩ := Option.map_eq_some_iff.1 h
  have hrest : esponente (frazione more) = rest := congrArg Prod.snd heq
  have := intera_lt hintera
  have := segno_le t
  have := esponente_le (frazione more)
  have := frazione_le more
  rw [← hrest]
  omega

theorem saltaScalare_lt {t rest : Text} (h : saltaScalare t = some (true, rest)) :
    rest.length < t.length := by
  unfold saltaScalare at h
  split at h
  next => cases h
  next c more =>
    have hword {parola : String} (hne : parola.toList ≠ [])
        (h : (letterale parola (c :: more)).map (fun r => (true, r)) = some (true, rest)) :
        rest.length < (c :: more).length := by
      obtain ⟨r, hr, heq⟩ := Option.map_eq_some_iff.1 h
      cases heq
      unfold letterale at hr
      split at hr
      next =>
        cases hr
        have := List.length_pos_of_ne_nil hne
        rw [List.length_drop, List.length_cons]
        omega
      next => cases hr
    split at h
    next => cases h
    next =>
    split at h
    next =>
      obtain ⟨r, hr, heq⟩ := Option.map_eq_some_iff.1 h
      cases heq
      exact saltaStringa_lt hr
    next =>
    split at h
    next =>
      obtain ⟨⟨o, r⟩, hr, heq⟩ := Option.map_eq_some_iff.1 h
      cases heq
      exact numero_lt hr
    next =>
    split at h
    next => exact hword (by decide) h
    next =>
    split at h
    next => exact hword (by decide) h
    next =>
    split at h
    next => exact hword (by decide) h
    next => cases h

/-! ## Keys -/

/-- A key of an open object: the hash of its code points, and the text from its opening quote on.
The first key of an object is marked. -/
structure Chiave where
  impronta : UInt64
  posizione : Text
  prima : Bool

/-- Two strings have the same code points, from behind their opening quotes on. -/
def stessiPunti (a b : Text) : Option Bool :=
  match _h : punto a with
  | none => none
  | some (pa, restA) =>
    match punto b with
    | none => none
    | some (pb, restB) =>
      if pa ≠ pb then some false
      else if pa = none then some true
      else stessiPunti restA restB
termination_by a.length
decreasing_by exact punto_lt _h

def stessoTesto (a b : Text) : Option Bool :=
  (atteso '"' a).bind fun a => (atteso '"' b).bind fun b => stessiPunti a b

/-- A key differs from those behind it. -/
def contro (k : Chiave) : List Chiave → Option Unit
  | [] => some ()
  | s :: ss => (stessoTesto k.posizione s.posizione).bind fun stesso =>
    if stesso then none else contro k ss

/-- The keys of one hash, each against those behind it. -/
def confronti : List Chiave → Option Unit
  | [] => some ()
  | k :: ks => (contro k ks).bind fun _ => confronti ks

/-- The groups of one hash in a sorted list. -/
def gruppi : List Chiave → Option Unit
  | [] => some ()
  | k :: ks =>
    (confronti (k :: ks.takeWhile (·.impronta = k.impronta))).bind fun _ =>
      gruppi (ks.dropWhile (·.impronta = k.impronta))
termination_by ks => ks.length
decreasing_by
  have := ks.length_dropWhile_le (·.impronta = k.impronta)
  simp only [List.length_cons]
  omega

def nessunDoppione (chiavi : List Chiave) : Option Unit :=
  gruppi (chiavi.mergeSort fun a b => a.impronta ≤ b.impronta)

/-! ## The validator -/

/-- The two loops of `valida`: a value is due, or one has ended. -/
inductive Fase where
  | valore | chiusura

/-- `generi` has `true` for an object; the containers and the keys opened last stand first. -/
structure Stato where
  fase : Fase
  testo : Text
  generi : List Bool
  chiavi : List Chiave

inductive Esito where
  | avanti (s : Stato)
  | finito (rest : Text)
  | malformato

section Validator

-- the hash of a key's code points, fixed for one document
variable (hash : List Nat → UInt64)

/-- A key and its colon. -/
def chiave (t : Text) (chiavi : List Chiave) (prima : Bool) : Option (Text × List Chiave) :=
  (impronta hash t).bind fun r =>
    (atteso ':' (spazi r.2)).map fun rest => (rest, ⟨r.1, t, prima⟩ :: chiavi)

/-- A container whose bracket has been read, and that is not empty. -/
def apri (oggetto : Bool) (t : Text) (generi : List Bool) (chiavi : List Chiave) : Esito :=
  if oggetto then
    match chiave hash t chiavi true with
    | some (rest, chiavi) => .avanti ⟨.valore, rest, true :: generi, chiavi⟩
    | none => .malformato
  else .avanti ⟨.valore, t, false :: generi, chiavi⟩

def chiusa (oggetto : Bool) : Char := if oggetto then '}' else ']'

def turnoValore (t : Text) (generi : List Bool) (chiavi : List Chiave) : Esito :=
  match saltaScalare (spazi t) with
  | none => .malformato
  | some (true, rest) => .avanti ⟨.chiusura, rest, generi, chiavi⟩
  | some (false, rest) =>
    let oggetto : Bool := rest.head? = some '{'
    let dentro := spazi (rest.drop 1)
    if dentro.head? = some (chiusa oggetto) then
      .avanti ⟨.chiusura, dentro.drop 1, generi, chiavi⟩
    else apri hash oggetto dentro generi chiavi

/-- An object ends: its keys are the last ones, up to its first. -/
def chiudi (rest : Text) (generi : List Bool) (chiavi : List Chiave) : Esito :=
  match chiavi.findIdx? (·.prima) with
  | none => .malformato
  | some i =>
    match nessunDoppione (chiavi.take (i + 1)) with
    | none => .malformato
    | some _ => .avanti ⟨.chiusura, rest, generi, chiavi.drop (i + 1)⟩

def turnoChiusura (t : Text) (generi : List Bool) (chiavi : List Chiave) : Esito :=
  match generi with
  | [] => .finito (spazi t)
  | oggetto :: generi =>
    match spazi t with
    | [] => .malformato
    | c :: rest =>
      if c = ',' then
        if oggetto then
          match chiave hash (spazi rest) chiavi false with
          | some (rest, chiavi) => .avanti ⟨.valore, rest, oggetto :: generi, chiavi⟩
          | none => .malformato
        else .avanti ⟨.valore, rest, oggetto :: generi, chiavi⟩
      else if c = '}' ∧ oggetto then chiudi rest generi chiavi
      else if c = ']' ∧ ¬ oggetto then .avanti ⟨.chiusura, rest, generi, chiavi⟩
      else .malformato

def turno (s : Stato) : Esito :=
  match s.fase with
  | .valore => turnoValore hash s.testo s.generi s.chiavi
  | .chiusura => turnoChiusura hash s.testo s.generi s.chiavi

theorem chiave_lt {t rest : Text} {chiavi more : List Chiave} {prima : Bool}
    (h : chiave hash t chiavi prima = some (rest, more)) : rest.length < t.length := by
  obtain ⟨⟨n, after⟩, himpronta, h⟩ := Option.bind_eq_some_iff.1 h
  obtain ⟨last, hcolon, heq⟩ := Option.map_eq_some_iff.1 h
  cases heq
  obtain ⟨⟨ps, more⟩, hstringa, heq⟩ := Option.map_eq_some_iff.1 himpronta
  cases heq
  have := stringa_lt hstringa
  have := show _ < (spazi more).length from atteso_lt hcolon
  have := spazi_le more
  omega

theorem saltaScalare_false {t rest : Text} (h : saltaScalare t = some (false, rest)) :
    rest = t ∧ ∃ c more, t = c :: more ∧ (c = '{' ∨ c = '[') := by
  unfold saltaScalare at h
  split at h
  next => cases h
  next c more =>
    have hnot {α : Type} {o : Option α} {f : α → Text}
        (h : o.map (fun r => (true, f r)) = some (false, rest)) : False := by
      obtain ⟨_, _, heq⟩ := Option.map_eq_some_iff.1 h
      cases heq
    split at h
    next hc =>
      cases h
      exact ⟨rfl, c, more, rfl, hc⟩
    next =>
    split at h
    next => exact (hnot h).elim
    next =>
    split at h
    next => exact (hnot h).elim
    next =>
    split at h
    next => exact (hnot h).elim
    next =>
    split at h
    next => exact (hnot h).elim
    next =>
    split at h
    next => exact (hnot h).elim
    next => cases h

theorem turno_lt {s s' : Stato} (h : turno hash s = .avanti s') :
    s'.testo.length < s.testo.length := by
  obtain ⟨fase, t, generi, chiavi⟩ := s
  have hspazi := spazi_le t
  cases fase with
  | valore =>
    change turnoValore hash t generi chiavi = _ at h
    unfold turnoValore at h
    split at h
    next => cases h
    next rest hscalare =>
      cases h
      exact Nat.lt_of_lt_of_le (saltaScalare_lt hscalare) hspazi
    next rest hscalare =>
      obtain ⟨rfl, c, more, hrest, -⟩ := saltaScalare_false hscalare
      have hdentro := spazi_le more
      rw [hrest] at h hspazi
      simp only [List.drop_succ_cons, List.drop_zero] at h
      simp only [List.length_cons] at hspazi
      split at h
      next =>
        cases h
        dsimp only
        rw [List.length_drop]
        omega
      next =>
        unfold apri at h
        split at h
        next =>
          split at h
          next after chiavi' hchiave =>
            cases h
            have := chiave_lt hash hchiave
            dsimp only
            omega
          next => cases h
        next =>
          cases h
          dsimp only
          omega
  | chiusura =>
    change turnoChiusura hash t generi chiavi = _ at h
    unfold turnoChiusura at h
    split at h
    next => cases h
    next oggetto generi =>
      split at h
      next => cases h
      next c rest hrest =>
        have hafter := spazi_le rest
        rw [hrest] at hspazi
        simp only [List.length_cons] at hspazi
        split at h
        next =>
          split at h
          next =>
            split at h
            next after chiavi' hchiave =>
              cases h
              have := chiave_lt hash hchiave
              dsimp only
              omega
            next => cases h
          next =>
            cases h
            exact hspazi
        next =>
        split at h
        next =>
          unfold chiudi at h
          split at h
          next => cases h
          next =>
            split at h
            next => cases h
            next =>
              cases h
              exact hspazi
        next =>
        split at h
        next =>
          cases h
          exact hspazi
        next => cases h

/-- The text behind the document's value. -/
def corri (s : Stato) : Option Text :=
  match _h : turno hash s with
  | .avanti s' => corri s'
  | .finito rest => some rest
  | .malformato => none
termination_by s.testo.length
decreasing_by exact turno_lt hash _h

def valida (t : Text) : Option Unit :=
  (corri hash ⟨.valore, t, [], []⟩).bind fun rest => if spazi rest = [] then some () else none

end Validator

/-! ## Skipping a value -/

/-- The brackets of a container, outside its strings. -/
def salta (aperti : Nat) (t : Text) : Option Text :=
  match t with
  | [] => none
  | c :: rest =>
    if c = '"' then
      match _h : saltaStringa (c :: rest) with
      | none => none
      | some r => salta aperti r
    else if c = '{' ∨ c = '[' then salta (aperti + 1) rest
    else if c = '}' ∨ c = ']' then
      if aperti = 0 then none
      else if aperti = 1 then some rest
      else salta (aperti - 1) rest
    else salta aperti rest
termination_by t.length
decreasing_by
  · exact saltaStringa_lt _h
  · exact Nat.lt_succ_self _
  · exact Nat.lt_succ_self _
  · exact Nat.lt_succ_self _

def saltaContenitore (t : Text) : Option Text := salta 0 t

def saltaValore (t : Text) : Option Text :=
  (saltaScalare t).bind fun r => if r.1 then some r.2 else saltaContenitore r.2

theorem salta_lt {aperti : Nat} {t rest : Text} (h : salta aperti t = some rest) :
    rest.length < t.length := by
  fun_induction salta aperti t with
  | case1 => cases h
  | case2 => cases h
  | case3 aperti more r hr ih => exact Nat.lt_trans (ih h) (saltaStringa_lt hr)
  | case4 aperti c more _ _ ih => exact Nat.lt_succ_of_lt (ih h)
  | case5 => cases h
  | case6 =>
    cases h
    exact Nat.lt_succ_self _
  | case7 aperti c more _ _ _ _ _ ih => exact Nat.lt_succ_of_lt (ih h)
  | case8 aperti c more _ _ _ ih => exact Nat.lt_succ_of_lt (ih h)

theorem saltaValore_lt {t rest : Text} (h : saltaValore t = some rest) :
    rest.length < t.length := by
  obtain ⟨⟨b, more⟩, hscalare, hrest⟩ := Option.bind_eq_some_iff.1 h
  cases b with
  | true =>
    cases hrest
    exact saltaScalare_lt hscalare
  | false =>
    have hcontenitore : salta 0 more = some rest := hrest
    obtain ⟨rfl, -⟩ := saltaScalare_false hscalare
    exact salta_lt hcontenitore

/-! ## Members -/

/-- What reads the value of a member, and leaves a text that is no longer. -/
structure Visita (σ : Type) where
  leggi : σ → Option Nat → Text → Option (σ × Text)
  shorter : ∀ s nome t s' rest, leggi s nome t = some (s', rest) → rest.length ≤ t.length

/-- A key and its colon, up to the value. -/
def nome (nomi : List String) (t : Text) : Option (Option Nat × Text) :=
  (nomeFra nomi (spazi t)).bind fun r =>
    (atteso ':' (spazi r.2)).map fun rest => (r.1, spazi rest)

theorem nome_lt {nomi : List String} {t rest : Text} {o : Option Nat}
    (h : nome nomi t = some (o, rest)) : rest.length < t.length := by
  obtain ⟨⟨i, more⟩, hnome, h⟩ := Option.bind_eq_some_iff.1 h
  obtain ⟨last, hcolon, heq⟩ := Option.map_eq_some_iff.1 h
  cases heq
  obtain ⟨⟨ps, after⟩, hstringa, heq⟩ := Option.map_eq_some_iff.1 hnome
  cases heq
  have := stringa_lt hstringa
  have := show _ < (spazi after).length from atteso_lt hcolon
  have := spazi_le after
  have := spazi_le last
  have := spazi_le t
  omega

/-- The members of an object that is not empty. -/
def membriDa {σ : Type} (visita : Visita σ) (nomi : List String) (s : σ) (t : Text) :
    Option (σ × Text) :=
  match _hn : nome nomi t with
  | none => none
  | some (trovato, value) =>
    match _hv : visita.leggi s trovato value with
    | none => none
    | some (s, rest) =>
      match _hr : spazi rest with
      | [] => none
      | c :: more =>
        if c = ',' then membriDa visita nomi s more
        else if c = '}' then some (s, more)
        else none
termination_by t.length
decreasing_by
  have := nome_lt _hn
  have := visita.shorter _ _ _ _ _ _hv
  have hle := spazi_le rest
  rw [_hr, List.length_cons] at hle
  omega

def membri {σ : Type} (visita : Visita σ) (nomi : List String) (s : σ) (t : Text) :
    Option (σ × Text) :=
  (atteso '{' t).bind fun rest =>
    match spazi rest with
    | '}' :: more => some (s, more)
    | dentro => membriDa visita nomi s dentro

theorem membriDa_lt {σ : Type} {visita : Visita σ} {nomi : List String} {s s' : σ} {t rest : Text}
    (h : membriDa visita nomi s t = some (s', rest)) : rest.length < t.length := by
  fun_induction membriDa visita nomi s t with
  | case1 => cases h
  | case2 => cases h
  | case3 => cases h
  | case4 s t trovato value hn s' after hv more hr ih =>
    have := ih h
    have := nome_lt hn
    have := visita.shorter _ _ _ _ _ hv
    have hle := spazi_le after
    rw [hr, List.length_cons] at hle
    omega
  | case5 s t trovato value hn s' after hv more hr =>
    cases h
    have := nome_lt hn
    have := visita.shorter _ _ _ _ _ hv
    have hle := spazi_le after
    rw [hr, List.length_cons] at hle
    omega
  | case6 => cases h

theorem membri_lt {σ : Type} {visita : Visita σ} {nomi : List String} {s s' : σ} {t rest : Text}
    (h : membri visita nomi s t = some (s', rest)) : rest.length < t.length := by
  obtain ⟨more, hopen, h⟩ := Option.bind_eq_some_iff.1 h
  have := atteso_lt hopen
  have hle := spazi_le more
  split at h
  next after hafter =>
    cases h
    rw [hafter, List.length_cons] at hle
    omega
  next =>
    have := membriDa_lt h
    omega

/-! ## Identifiers -/

abbrev Coppia := DefinitionText × DefinitionText

/-- A code: a string, or an integer as Python writes it. -/
def leggiCodice (t : Text) : Option (DefinitionText × Text) :=
  match t with
  | [] => none
  | c :: rest =>
    if c = '"' then testo (c :: rest)
    else if c = '-' ∨ c.isDigit then
      (numero (c :: rest)).bind fun r =>
        r.1.map fun raw => (.unicode (if raw = "-0".toList then "0".toList else raw), r.2)
    else none

/-- The authority and the code among the members of an identifier. -/
def leggiMembro (s : Option DefinitionText × Option DefinitionText) (nome : Option Nat)
    (t : Text) : Option ((Option DefinitionText × Option DefinitionText) × Text) :=
  match nome with
  | some 0 => if t.head? = some '"' then (testo t).map fun r => ((some r.1, s.2), r.2) else none
  | some _ => (leggiCodice t).map fun r => ((s.1, some r.1), r.2)
  | none => (saltaValore t).map fun rest => (s, rest)

theorem testo_lt {t rest : Text} {d : DefinitionText} (h : testo t = some (d, rest)) :
    rest.length < t.length := by
  obtain ⟨⟨ps, more⟩, hstringa, heq⟩ := Option.map_eq_some_iff.1 h
  cases heq
  exact stringa_lt hstringa

theorem leggiCodice_lt {t rest : Text} {d : DefinitionText}
    (h : leggiCodice t = some (d, rest)) : rest.length < t.length := by
  unfold leggiCodice at h
  split at h
  next => cases h
  next =>
    split at h
    next => exact testo_lt h
    next =>
    split at h
    next =>
      obtain ⟨⟨o, more⟩, hnumero, h⟩ := Option.bind_eq_some_iff.1 h
      obtain ⟨raw, -, heq⟩ := Option.map_eq_some_iff.1 h
      have hrest : more = rest := congrArg Prod.snd heq
      exact hrest ▸ numero_lt hnumero
    next => cases h

def visitaMembro : Visita (Option DefinitionText × Option DefinitionText) where
  leggi := leggiMembro
  shorter s nome t s' rest h := by
    unfold leggiMembro at h
    split at h
    next =>
      split at h
      next =>
        obtain ⟨r, hr, heq⟩ := Option.map_eq_some_iff.1 h
        cases heq
        exact Nat.le_of_lt (testo_lt hr)
      next => cases h
    next =>
      obtain ⟨r, hr, heq⟩ := Option.map_eq_some_iff.1 h
      cases heq
      exact Nat.le_of_lt (leggiCodice_lt hr)
    next =>
      obtain ⟨r, hr, heq⟩ := Option.map_eq_some_iff.1 h
      cases heq
      exact Nat.le_of_lt (saltaValore_lt hr)

def identificatore (t : Text) : Option (Coppia × Text) :=
  (membri visitaMembro ["authority", "code"] (none, none) t).bind fun r =>
    match r.1 with
    | (some autorita, some codice) => some ((autorita, codice), r.2)
    | _ => none

theorem identificatore_lt {t rest : Text} {voce : Coppia}
    (h : identificatore t = some (voce, rest)) : rest.length < t.length := by
  obtain ⟨⟨s, more⟩, hmembri, hvoce⟩ := Option.bind_eq_some_iff.1 h
  dsimp only at hvoce
  split at hvoce
  next =>
    cases hvoce
    exact membri_lt hmembri
  next => cases hvoce

/-- The entries of a list that is not empty. -/
def voci (t : Text) : Option (List Coppia × Text) :=
  match _hi : identificatore (spazi t) with
  | none => none
  | some (voce, rest) =>
    match _hr : spazi rest with
    | [] => none
    | c :: more =>
      if c = ',' then (voci more).map fun r => (voce :: r.1, r.2)
      else if c = ']' then some ([voce], more)
      else none
termination_by t.length
decreasing_by
  have := identificatore_lt _hi
  have := spazi_le t
  have hle := spazi_le rest
  rw [_hr, List.length_cons] at hle
  omega

def lista (t : Text) : Option (List Coppia × Text) :=
  (atteso '[' t).bind fun rest =>
    match spazi rest with
    | ']' :: more => some ([], more)
    | dentro => voci dentro

theorem voci_lt {t rest : Text} {all : List Coppia} (h : voci t = some (all, rest)) :
    rest.length < t.length := by
  fun_induction voci t generalizing all with
  | case1 => cases h
  | case2 => cases h
  | case3 t voce after hi more hr ih =>
    obtain ⟨⟨others, last⟩, hothers, heq⟩ := Option.map_eq_some_iff.1 h
    cases heq
    have := ih hothers
    have := identificatore_lt hi
    have := spazi_le t
    have hle := spazi_le after
    rw [hr, List.length_cons] at hle
    omega
  | case4 t voce after hi more hr =>
    cases h
    have := identificatore_lt hi
    have := spazi_le t
    have hle := spazi_le after
    rw [hr, List.length_cons] at hle
    omega
  | case5 => cases h

theorem lista_lt {t rest : Text} {all : List Coppia} (h : lista t = some (all, rest)) :
    rest.length < t.length := by
  obtain ⟨more, hopen, hlista⟩ := Option.bind_eq_some_iff.1 h
  have := atteso_lt hopen
  have hle := spazi_le more
  split at hlista
  next after hafter =>
    cases hlista
    rw [hafter, List.length_cons] at hle
    omega
  next =>
    have := voci_lt hlista
    omega

/-- `id` and `ids` among the members of the root. -/
def leggiRadice (s : Option Coppia × Option (List Coppia)) (nome : Option Nat) (t : Text) :
    Option ((Option Coppia × Option (List Coppia)) × Text) :=
  match nome with
  | some 0 => (identificatore t).map fun r => ((some r.1, s.2), r.2)
  | some _ => (lista t).map fun r => ((s.1, some r.1), r.2)
  | none => (saltaValore t).map fun rest => (s, rest)

def visitaRadice : Visita (Option Coppia × Option (List Coppia)) where
  leggi := leggiRadice
  shorter s nome t s' rest h := by
    unfold leggiRadice at h
    split at h
    next =>
      obtain ⟨r, hr, heq⟩ := Option.map_eq_some_iff.1 h
      cases heq
      exact Nat.le_of_lt (identificatore_lt hr)
    next =>
      obtain ⟨r, hr, heq⟩ := Option.map_eq_some_iff.1 h
      cases heq
      exact Nat.le_of_lt (lista_lt hr)
    next =>
      obtain ⟨r, hr, heq⟩ := Option.map_eq_some_iff.1 h
      cases heq
      exact Nat.le_of_lt (saltaValore_lt hr)

def radice (t : Text) : Option (List Coppia) :=
  (membri visitaRadice ["id", "ids"] (none, none) (spazi t)).bind fun r =>
    match r.1 with
    | (some id, none) => some [id]
    | (none, some ids) => some ids
    | (none, none) => some []
    | (some _, some _) => none

/-- `projjson::identifiers`, with the hash of the keys. -/
def identifiers (hash : List Nat → UInt64) (t : Text) : Option (List Coppia) :=
  if ¬ withinSizeLimit t then none
  else (valida hash t).bind fun _ => radice t

end Plenora.Core.Projjson
