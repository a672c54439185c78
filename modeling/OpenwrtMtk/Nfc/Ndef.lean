import OpenwrtMtk.Lib.Field

/-!
# NDEF records

`mtk_app_ndef.c`: the length of a record, the writer and the parser. A pointer into a record is the
memory from there on, so that a record which has been parsed points into the raw bytes. A read
behind the end of the memory has no result.
-/

namespace OpenwrtMtk.Nfc

open Toolkit

set_option autoImplicit false

def tnfEmpty : U8 := 0x00
def tnfNfcWellKnown : U8 := 0x01
def tnfMediaType : U8 := 0x02
def tnfUnknown : U8 := 0x05
def tnfUnchanged : U8 := 0x06
def tnfReserved : U8 := 0x07
def tnfByteMask : U8 := 0x07
def flagMask : U8 := 0xf8
def flagsMb : U8 := 0x80
def flagsMe : U8 := 0x40
def flagsCf : U8 := 0x20
def flagsSr : U8 := 0x10
def flagsIl : U8 := 0x08

/-- `mtk_nfcho_ndefrecord_t`. -/
structure NdefRecord where
  flags : U8
  tnf : U8
  typeLength : U8
  type : List U8
  idLength : U8
  id : List U8
  payloadLength : U32
  payloadData : List U8
  deriving DecidableEq

def NdefRecord.zero : NdefRecord := ⟨0, 0, 0, [], 0, [], 0, []⟩

section Generate

/-- `mtk_nfchod_NdefRecord_NdefFlag`. -/
def ndefFlag (flags mask : U8) : U8 := flags &&& mask

/-- `mtk_nfchod_NdefRecord_GetLength`. -/
def getLength (record : NdefRecord) : U32 :=
  let tnf := ndefFlag record.tnf tnfByteMask
  let typeLength := if tnf ≠ tnfEmpty ∧ tnf ≠ tnfUnknown ∧ tnf ≠ tnfUnchanged
    then record.typeLength.setWidth 32 else 0
  let lengthBytes : U32 := if ndefFlag record.flags flagsSr ≠ 0 then 1 else 4
  let payloadLength := if tnf ≠ tnfEmpty then record.payloadLength else 0
  let idLength := if ndefFlag record.flags flagsIl ≠ 0 then record.idLength.setWidth 32 + 1 else 0
  1 + 1 + typeLength + lengthBytes + payloadLength + idLength

def longBytes (w : U32) : List U8 :=
  [(w >>> 24).setWidth 8, (w >>> 16).setWidth 8, (w >>> 8).setWidth 8, w.setWidth 8]

/-- The first `n` bytes at a pointer. -/
def bytesAt (pointer : List U8) (n : Nat) : Option (List U8) :=
  if n ≤ pointer.length then some (pointer.take n) else none

def bytesIf (p : Prop) [Decidable p] (pointer : List U8) (n : Nat) : Option (List U8) :=
  if p then bytesAt pointer n else some []

/-- What a call returns, stores from the start of the buffer on and stores in `BytesWritten`. -/
structure Generated where
  status : Int
  out : List U8
  bytesWritten : Option U32
  deriving DecidableEq

/-- `mtk_nfchod_NdefRecord_Generate`. -/
def generate (record : NdefRecord) (maxBufferSize : U32) : Option Generated :=
  if maxBufferSize = 0 then some ⟨-1, [], none⟩
  else if record.tnf = tnfReserved then some ⟨-1, [], none⟩
  else if getLength record > maxBufferSize then some ⟨-1, [], none⟩
  else
    let written := some (getLength record)
    let header := (record.flags &&& flagMask) ||| (record.tnf &&& tnfByteMask)
    let tnf := ndefFlag record.tnf tnfByteMask
    let short := ndefFlag record.flags flagsSr ≠ 0
    let hasId := ndefFlag record.flags flagsIl ≠ 0
    if tnf = tnfEmpty then some ⟨0, [header, 0, 0, 0], written⟩
    else if tnf = tnfReserved then some ⟨-1, [header], written⟩
    else do
      let hasType := ¬(tnf = tnfUnknown ∨ tnf = tnfUnchanged)
      let type ← bytesIf hasType record.type record.typeLength.toNat
      let id ← bytesIf hasId record.id record.idLength.toNat
      let payload ← bytesAt record.payloadData record.payloadLength.toNat
      let typeByte := if hasType then record.typeLength else 0
      let lengthBytes := if short then [record.payloadLength.setWidth 8]
        else longBytes record.payloadLength
      let idByte := if hasId then [record.idLength] else []
      some ⟨0, header :: typeByte :: (lengthBytes ++ idByte ++ type ++ id ++ payload), written⟩

end Generate

section Parse

/-- `mtk_nfchod_NdefRecord_RecordFlag`. -/
def recordFlag (header : U8) : U8 :=
  [flagsMb, flagsMe, flagsCf, flagsSr, flagsIl].foldl
    (fun flag mask => if header &&& mask = mask then flag ||| mask else flag) 0

/-- The lengths that `mtk_nfchod_NdefRecord_RecordIDCheck` finds, and over how many bytes. -/
structure Lengths where
  typeLength : U8 := 0
  typeLengthByte : Nat := 0
  payloadLengthByte : Nat := 0
  payloadLength : U32 := 0
  idLengthByte : Nat := 0
  idLength : U8 := 0
  deriving DecidableEq

def longOf (b2 b3 b4 b5 : U8) : U32 :=
  ((b2.setWidth 32 : U32) <<< 24) + ((b3.setWidth 32 : U32) <<< 16) +
    ((b4.setWidth 32 : U32) <<< 8) + b5.setWidth 32

def readPayloadLength (record : List U8) (header : U8) (l : Lengths) : Option Lengths :=
  if header &&& flagsSr = flagsSr then do
    let length ← record[l.typeLengthByte + 1]?
    some { l with payloadLengthByte := 1, payloadLength := length.setWidth 32 }
  else do
    let b2 ← record[2]?
    let b3 ← record[3]?
    let b4 ← record[4]?
    let b5 ← record[5]?
    some { l with
      payloadLengthByte := 4
      payloadLength := longOf b2 b3 b4 b5 }

def readIdLength (record : List U8) (header : U8) (l : Lengths) : Option Lengths :=
  if header &&& flagsIl = flagsIl then do
    let length ← record[l.payloadLengthByte + l.typeLengthByte + 1]?
    some { l with idLengthByte := 1, idLength := length }
  else some { l with idLengthByte := 0, idLength := 0 }

/-- `mtk_nfchod_NdefRecord_RecordIDCheck`: an empty record has no lengths but zero, and neither has
the type of an unknown or unchanged one. -/
def recordIdCheck (record : List U8) : Option (Int × Lengths) := do
  let header ← record[0]?
  let tnf := header &&& tnfByteMask
  if tnf = tnfReserved then some (-1, {})
  else do
    let type ← record[1]?
    if tnf = tnfEmpty then
      if type ≠ 0 then some (-1, { typeLength := type })
      else do
        let l ← readPayloadLength record header { typeLength := type, typeLengthByte := 1 }
        if l.payloadLength ≠ 0 then some (-1, l)
        else do
          let l ← readIdLength record header l
          if l.idLength ≠ 0 then some (-1, l) else some (0, l)
    else if (tnf = tnfUnknown ∨ tnf = tnfUnchanged) ∧ type ≠ 0 then some (-1, {})
    else do
      let l ← readPayloadLength record header { typeLength := type, typeLengthByte := 1 }
      let l ← readIdLength record header l
      some (0, l)

/-- `mtk_nfchod_NdefRecord_Parse`. The type name format of the header is always one of the eight
that the source knows. -/
def parse (record : NdefRecord) (raw : List U8) : Option (Int × NdefRecord) := do
  let header ← raw[0]?
  let (status, l) ← recordIdCheck raw
  let raw := raw.drop (l.payloadLengthByte + l.idLengthByte + l.typeLengthByte + 1)
  let afterType := raw.drop l.typeLength.toNat
  some (status, {
    flags := recordFlag header
    tnf := header &&& tnfByteMask
    typeLength := l.typeLength
    type := raw
    idLength := l.idLength
    id := if l.idLength ≠ 0 then afterType else record.id
    payloadLength := l.payloadLength
    payloadData := afterType.drop l.idLength.toNat })

end Parse

end OpenwrtMtk.Nfc
