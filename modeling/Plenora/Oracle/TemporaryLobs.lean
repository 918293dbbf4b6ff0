import Plenora.Lib.Calls
import Plenora.Lib.Pieces
import Plenora.Lib.Utf16
import Plenora.Lib.Utf8
import Plenora.Core.Plan

/-!
# Temporary LOBs

A long value is written to a temporary LOB of the server and its locator is bound in its place.
Locators are kept from row to row: a row takes them again in order, emptied first.

    bindParametersWithLobs … : Call Stop World (List Value)
    bindTargetLobs …         : Call Stop World (List Value)
-/

namespace Plenora.Oracle.TemporaryLobs

open Plenora.Lib Plenora.Lib.Call Plenora.Core

/-! ## The server -/

/-- A locator: the LOB it names, and whether its units are those of UTF-16. -/
structure LobLocator where
  id : Nat
  varLengthCharset : Bool
  deriving DecidableEq

/-- The units the server counts a text in. -/
def textUnits (locator : LobLocator) (text : List Char) : List Nat :=
  if locator.varLengthCharset then Utf16.utf16 text else text.map Char.toNat

/-- `LobLocator::clob_amount` -/
def clobAmount (locator : LobLocator) (text : List Char) : Nat :=
  if locator.varLengthCharset then (Utf16.utf16 text).length else text.length

def bytesUnits (bytes : List UInt8) : List Nat := bytes.map UInt8.toNat

/-- The LOBs made so far and what each holds. -/
structure Server where
  created : Nat
  content : Nat → List Nat

inductive LobKind where
  | blob | clob
  deriving DecidableEq

inductive Request where
  | create (kind : LobKind)
  | trim (locator : LobLocator) (size : Nat)
  | write (locator : LobLocator) (offset : Nat) (units : List Nat)
  | length (locator : LobLocator)
  | read (locator : LobLocator) (offset length : Nat)

namespace Server

def setContent (server : Server) (id : Nat) (units : List Nat) : Server :=
  { server with content := Function.update server.content id units }

/-- A request that the client sees fail leaves any content in the LOB it was about. -/
def damage (server : Server) (left : List Nat) : Request → Server
  | .create _ => { server with created := server.created + 1 }
  | .trim locator _ => server.setContent locator.id left
  | .write locator _ _ => server.setContent locator.id left
  | .length _ => server
  | .read _ _ _ => server

/-- A new LOB, empty. -/
def create (server : Server) : Server :=
  { created := server.created + 1, content := Function.update server.content server.created [] }

def trim (server : Server) (locator : LobLocator) (size : Nat) : Server :=
  server.setContent locator.id ((server.content locator.id).take size)

/-- Units written from an offset, counted from 1. -/
def write (server : Server) (locator : LobLocator) (offset : Nat) (units : List Nat) : Server :=
  server.setContent locator.id
    (Pieces.overwrite 0 (server.content locator.id) (offset - 1) units)

end Server

/-! ## The client -/

/-- The locators of earlier rows. -/
structure LobCache where
  blobs : List LobLocator
  clobs : List LobLocator

def LobCache.of (cache : LobCache) : LobKind → List LobLocator
  | .blob => cache.blobs
  | .clob => cache.clobs

def LobCache.push (cache : LobCache) (kind : LobKind) (locator : LobLocator) : LobCache :=
  match kind with
  | .blob => { cache with blobs := cache.blobs ++ [locator] }
  | .clob => { cache with clobs := cache.clobs ++ [locator] }

structure World where
  server : Server
  cache : LobCache
  sent : List Request

/-- How a call of the driver ends: how it fails, what a failure leaves behind, and the character
set of a LOB that is made. -/
structure Answer where
  failure : Option DatabaseError
  left : List Nat
  varLengthCharset : Bool

/-- Why a bind ends without its values. -/
inductive Stop where
  | failed (error : DatabaseError)
  | panicked
  | running

def mappingError (message : String) : DatabaseError :=
  .new .dataMapping .prepare (some .oracle) message

def fail {α : Type} (error : DatabaseError) : Call Stop World α := throw (.failed error)

section Driver

-- The answers of the driver, call by call.
variable (env : Nat → Answer)

/-- A call under its deadline; `lob_error` gives a failure the message of the step. -/
def ask {α : Type} (request : Request) (message : String)
    (perform : Server → Answer → α × Server) : Call Stop World α :=
  ExceptT.mk fun w =>
    let answer := env w.sent.length
    let sent := w.sent ++ [request]
    match answer.failure with
    | some error =>
      (.error (.failed { error with message }),
        { w with server := w.server.damage answer.left request, sent })
    | none =>
      (.ok (perform w.server answer).1, { w with server := (perform w.server answer).2, sent })

def createTempLob (kind : LobKind) : Call Stop World LobLocator :=
  ask env (.create kind) "creazione temporary LOB Oracle fallita" fun server answer =>
    (⟨server.created, answer.varLengthCharset⟩, server.create)

def lobTrim (locator : LobLocator) (size : Nat) : Call Stop World Unit :=
  ask env (.trim locator size) "reset temporary LOB Oracle fallito" fun server _ =>
    ((), server.trim locator size)

def writeLob (locator : LobLocator) (offset : Nat) (units : List Nat) (message : String) :
    Call Stop World Unit :=
  ask env (.write locator offset units) message fun server _ =>
    ((), server.write locator offset units)

/-- `cache[index]` -/
def cacheAt (kind : LobKind) (index : Nat) : Call Stop World LobLocator := do
  let locator ← Call.read fun w => (w.cache.of kind)[index]?
  match locator with
  | some locator => pure locator
  | none => throw .panicked

/-- `reset_or_create` -/
def resetOrCreate (kind : LobKind) (index : Nat) : Call Stop World Unit := do
  let length ← Call.read fun w => (w.cache.of kind).length
  if index = length then do
    let locator ← createTempLob env kind
    Call.update fun w => { w with cache := w.cache.push kind locator }
  else do
    let locator ← cacheAt kind index
    lobTrim env locator 0

inductive LobValue where
  | null
  | locator (locator : LobLocator)

/-- A bound value; the scalar ones are those of the driver. -/
inductive Value (Scalar : Type) where
  | lob (value : LobValue)
  | scalar (value : Scalar)

variable {Scalar : Type}

def blobWriteChunkBytes : Nat := 1024
def clobWriteChunkBytes : Nat := 4000

/-- The loop of `bind_blob` over the chunks that remain. -/
def writeChunks (index : Nat) : Nat → List (List UInt8) → Call Stop World Unit
  | _, [] => pure ()
  | chunkIndex, chunk :: chunks => do
    let offset := chunkIndex * blobWriteChunkBytes + 1
    if 2 ^ 64 ≤ offset then fail (.resourceLimit "offset temporary BLOB Oracle in overflow")
    else do
      let locator ← cacheAt .blob index
      writeLob env locator offset (bytesUnits chunk) "scrittura temporary BLOB Oracle fallita"
      writeChunks index (chunkIndex + 1) chunks

/-- `bind_blob` -/
def bindBlob (bytes : List UInt8) (index : Nat) : Call Stop World (Value Scalar) := do
  resetOrCreate env .blob index
  writeChunks env index 0 (Pieces.chunks blobWriteChunkBytes bytes)
  let locator ← cacheAt .blob index
  pure (.lob (.locator locator))

/-- `text.len()` -/
def byteLength (text : List Char) : Nat := (Utf8.utf8 text).length

/-- `text.is_char_boundary(n)` -/
def isCharBoundary (text : List Char) (n : Nat) : Bool := (Utf8.dropBytes text n).isSome

/-- The loop that moves the end of a piece back to a boundary; it would stop at 0 at the latest. -/
def boundaryBefore (text : List Char) : Nat → Nat
  | 0 => 0
  | n + 1 => if isCharBoundary text (n + 1) then n + 1 else boundaryBefore text n

/-- Where the piece from `byteOffset` on ends. -/
def pieceEnd (text : List Char) (byteOffset : Nat) : Nat :=
  let sum := byteOffset + clobWriteChunkBytes
  boundaryBefore text (min (if sum < 2 ^ 64 then sum else byteLength text) (byteLength text))

/-- `&text[start..stop]`; none where the slice panics. -/
def sliceText (text : List Char) (start stop : Nat) : Option (List Char) :=
  if start ≤ stop then (Utf8.dropBytes text start).bind (Utf8.takeBytes · (stop - start)) else none

/-- The loop of `bind_clob`, as far as the fuel goes. -/
def writePieces (text : List Char) (index : Nat) : Nat → Nat → Nat → Call Stop World Unit
  | fuel, byteOffset, characterOffset =>
    if byteOffset < byteLength text then
      match fuel with
      | 0 => throw .running
      | fuel + 1 =>
        let stop := pieceEnd text byteOffset
        match sliceText text byteOffset stop with
        | none => throw .panicked
        | some chunk => do
          let locator ← cacheAt .clob index
          writeLob env locator characterOffset (textUnits locator chunk)
            "scrittura temporary CLOB Oracle fallita"
          let next := characterOffset + clobAmount locator chunk
          if 2 ^ 64 ≤ next then fail (.resourceLimit "offset temporary CLOB Oracle in overflow")
          else writePieces text index fuel stop next
    else pure ()

/-- `bind_clob`, with fuel for one pass of the loop a byte. -/
def bindClob (text : List Char) (index : Nat) : Call Stop World (Value Scalar) := do
  resetOrCreate env .clob index
  writePieces env text index (byteLength text) 0 1
  let locator ← cacheAt .clob index
  pure (.lob (.locator locator))

/-! ## Parameters -/

/-- `reject_empty` -/
def rejectEmpty (parameter : ParameterValue) : Result Unit :=
  let empty := match parameter with
    | .string text | .uuid text | .enum _ text => text.isEmpty
    | .bytes bytes => bytes.isEmpty
    | _ => false
  if empty then .error (mappingError "parametro vuoto Oracle non ammesso") else .ok ()

def rejectEmpties : List ParameterValue → Call Stop World Unit
  | [] => pure ()
  | parameter :: parameters => do
    match rejectEmpty parameter with
    | .error error => fail error
    | .ok () => rejectEmpties parameters

-- What `bind_parameter` makes of a value that no LOB holds.
variable (bindParameter : ParameterValue → Result Scalar)

def bindScalar (parameter : ParameterValue) : Call Stop World (Value Scalar) :=
  match bindParameter parameter with
  | .error error => fail error
  | .ok value => pure (.scalar value)

/-- What a LOB is to hold. -/
inductive Payload where
  | bytes (bytes : List UInt8)
  | text (text : List Char)

inductive OracleType where
  | blob | clob
  | other (code : Nat)
  deriving DecidableEq

-- The text that the driver reads from the units of a LOB.
variable (readText : LobLocator → List Nat → Except DatabaseError (List Char))

def lobLength (locator : LobLocator) : Call Stop World Nat :=
  ask env (.length locator) "rilettura lunghezza LOB fallita" fun server _ =>
    ((server.content locator.id).length, server)

def readLobRange (locator : LobLocator) (offset length : Nat) : Call Stop World (List Nat) :=
  ask env (.read locator offset length) "rilettura contenuto LOB fallita" fun server _ =>
    (((server.content locator.id).drop (offset - 1)).take length, server)

/-- The units that the value has in the LOB, if it is one that a LOB holds. -/
def expectedLength (locator : LobLocator) : ParameterValue → Option Nat
  | .bytes bytes => some bytes.length
  | .string text => some (clobAmount locator text.toList)
  | _ => none

/-- Is the content that was read the value. -/
def sameContent (locator : LobLocator) (actual : List Nat) :
    ParameterValue → Except DatabaseError Bool
  | .bytes bytes => .ok (bytesUnits bytes = actual)
  | .string text => (readText locator actual).map fun actual => text.toList = actual
  | _ => .ok false

/-- `verify` -/
def verify (locator : LobLocator) (expected : ParameterValue) : Call Stop World Unit := do
  let length ← lobLength env locator
  match expectedLength locator expected with
  | none => fail (mappingError "tipo LOB incoerente")
  | some expectedLength =>
    if length ≠ expectedLength then fail (mappingError "lunghezza LOB riletta diversa")
    else if length = 0 then pure ()
    else do
      let actual ← readLobRange env locator 1 length
      match sameContent readText locator actual expected with
      | .error error => fail { error with message := "rilettura contenuto LOB fallita" }
      | .ok true => pure ()
      | .ok false => fail (mappingError "contenuto LOB riletto diverso")

/-- The parameters that the descriptor of the target, or a geometry, sends to a LOB. -/
def targetLobOf : ParameterValue → Option OracleType → Option Payload
  | .bytes bytes, some .blob => some (.bytes bytes)
  | .wkb bytes _ _ _, none => some (.bytes bytes)
  | .string text, some .clob => some (.text text.toList)
  | _, _ => none

/-- The value is read back where the target described the LOB. -/
def verifyTarget (kind : Option OracleType) (value : Value Scalar) (parameter : ParameterValue) :
    Call Stop World Unit :=
  match kind, value with
  | some _, .lob (.locator locator) => verify env readText locator parameter
  | _, _ => pure ()

/-- What is bound where no LOB is written. -/
def bindOther (parameter : ParameterValue) : Option OracleType → Call Stop World (Value Scalar)
  | some .blob | some .clob =>
    if parameter.isNull then pure (.lob .null)
    else fail (mappingError "valore incompatibile con il tipo LOB del target")
  | none => do
    rejectEmpties [parameter]
    bindScalar bindParameter parameter
  | some (.other _) => fail (mappingError "valore incompatibile con il tipo LOB del target")

/-- The loop of `bind_target_lobs`. -/
def bindEachTarget :
    Nat → Nat → List (ParameterValue × Option OracleType) →
      Call Stop World (List (Value Scalar))
  | _, _, [] => pure []
  | blobs, clobs, (parameter, kind) :: parameters =>
    match targetLobOf parameter kind with
    | some (.bytes bytes) => do
      let value ← bindBlob env bytes blobs
      verifyTarget env readText kind value parameter
      let values ← bindEachTarget (blobs + 1) clobs parameters
      pure (value :: values)
    | some (.text text) => do
      let value ← bindClob env text clobs
      verifyTarget env readText kind value parameter
      let values ← bindEachTarget blobs (clobs + 1) parameters
      pure (value :: values)
    | none => do
      let value ← bindOther bindParameter parameter kind
      verifyTarget env readText kind value parameter
      let values ← bindEachTarget blobs clobs parameters
      pure (value :: values)

/-- `bind_target_lobs` -/
def bindTargetLobs (parameters : List ParameterValue) (kinds : List (Option OracleType)) :
    Call Stop World (List (Value Scalar)) := do
  rejectEmpties parameters
  if parameters.length ≠ kinds.length then fail (mappingError "descrittori LOB incoerenti")
  else bindEachTarget env bindParameter readText 0 0 (parameters.zip kinds)

end Driver

end Plenora.Oracle.TemporaryLobs
