/-
This file models the code that protoc has generated for `RPC::RpcHeader`: its parse
loop, its serialization, its size and how one header is merged into another. It proves
that the format is sound as a whole. Behind any bytes that parse, a serialization merges
its header into theirs; and whatever parses is a header that can be serialized, to no
more bytes, and is then parsed to the same header.

The runtime of protobuf is a parameter: how it reads and writes tags, strings, numbers
and the fields that the generated code does not know.
-/

import YYNet.Lib.RecordLoop
import YYNet.Net.RpcProvider

namespace YYNet

open RecordLoop

/-! ### The runtime -/

/-- What the generated code calls in the runtime, for unknown fields of a type `Field`. A reader
has no value where it fails or runs past the end. -/
structure WireFormat (Field : Type) where
  readTag : Reader UInt8 Nat
  inlineGreedyStringParser : Reader UInt8 (List UInt8)
  readVarint32 : Reader UInt8 Nat
  unknownFieldParse : Nat → Reader UInt8 Field
  writeBytes : Nat → List UInt8 → List UInt8
  writeUInt32 : Nat → Nat → List UInt8
  serializeUnknownField : Field → List UInt8
  bytesSize : List UInt8 → Nat
  uInt32Size : Nat → Nat
  unknownFieldSize : Field → Nat

variable {Field : Type}

namespace WireFormat

/-- A field that the generated code does not know has been read behind this tag. -/
def Occurs (wire : WireFormat Field) (tag : Nat) (field : Field) : Prop :=
  ∃ bytes behind rest, wire.readTag bytes = some (tag, behind) ∧
    wire.unknownFieldParse tag behind = some (field, rest)

/-- The wire format. A field is a tag, with the number of the field and how it is written, and
what is written. Readers read what is written, and there is no shorter way to write it. -/
structure Lawful (wire : WireFormat Field) : Prop where
  tag_local : wire.readTag.Local fun _ => 1
  string_local : wire.inlineGreedyStringParser.Local wire.bytesSize
  varint_local : wire.readVarint32.Local wire.uInt32Size
  unknown_local : ∀ tag, (wire.unknownFieldParse tag).Local fun _ => 0
  varint_fits : ∀ bytes number rest, wire.readVarint32 bytes = some (number, rest) →
    number < 2 ^ 32
  unknown_size : ∀ bytes tag behind field rest, wire.readTag bytes = some (tag, behind) →
    wire.unknownFieldParse tag behind = some (field, rest) →
      wire.unknownFieldSize field + rest.length ≤ bytes.length
  bytes_read : ∀ number value rest, 0 < number → number < 16 → value.length < 2 ^ 31 - 16 →
    ∃ behind, wire.readTag (wire.writeBytes number value ++ rest) = some (number * 8 + 2, behind) ∧
      wire.inlineGreedyStringParser behind = some (value, rest)
  uInt32_read : ∀ number value rest, 0 < number → number < 16 → value < 2 ^ 32 →
    ∃ behind, wire.readTag (wire.writeUInt32 number value ++ rest) = some (number * 8, behind) ∧
      wire.readVarint32 behind = some (value, rest)
  unknown_read : ∀ tag field rest, wire.Occurs tag field →
    ∃ behind, wire.readTag (wire.serializeUnknownField field ++ rest) = some (tag, behind) ∧
      wire.unknownFieldParse tag behind = some (field, rest)
  bytes_written : ∀ number value, 0 < number → number < 16 → value.length < 2 ^ 31 - 16 →
    (wire.writeBytes number value).length = 1 + wire.bytesSize value
  uInt32_written : ∀ number value, 0 < number → number < 16 → value < 2 ^ 32 →
    (wire.writeUInt32 number value).length = 1 + wire.uInt32Size value
  unknown_written : ∀ tag field, wire.Occurs tag field →
    (wire.serializeUnknownField field).length = wire.unknownFieldSize field
  length_le_bytesSize : ∀ value, value.length ≤ wire.bytesSize value

end WireFormat

/-! ### The generated code -/

/-- `RPC::RpcHeader`, with the unknown fields of its `_internal_metadata_`. -/
structure RpcHeaderMessage (Field : Type) extends RpcHeader where
  unknownFields : List Field
  deriving DecidableEq

namespace RpcHeaderMessage

/-- The constructor. -/
def create : RpcHeaderMessage Field where
  serviceName := []
  methodName := []
  argsSize := 0
  unknownFields := []

/-- `Clear`. -/
def clear (_ : RpcHeaderMessage Field) : RpcHeaderMessage Field := create

/-- `MergeFrom`. -/
def mergeFrom (header other : RpcHeaderMessage Field) : RpcHeaderMessage Field where
  unknownFields := header.unknownFields ++ other.unknownFields
  serviceName := if other.serviceName.length > 0 then other.serviceName else header.serviceName
  methodName := if other.methodName.length > 0 then other.methodName else header.methodName
  argsSize := if other.argsSize ≠ 0 then other.argsSize else header.argsSize

/-- `CopyFrom`, of another header. -/
def copyFrom (header other : RpcHeaderMessage Field) : RpcHeaderMessage Field :=
  header.clear.mergeFrom other

/-- What a reader has read is stored, or the parse fails. -/
def stored {Value : Type} (store : Value → RpcHeaderMessage Field) :
    Option (Value × List UInt8) → Ending UInt8 (RpcHeaderMessage Field)
  | none => .failed
  | some (value, rest) => .reached (store value) rest

/-- A round of the loop of `_InternalParse`. -/
def parseField (wire : WireFormat Field) (header : RpcHeaderMessage Field) (bytes : List UInt8) :
    Ending UInt8 (RpcHeaderMessage Field) :=
  match wire.readTag bytes with
  | none => .failed
  | some (tag, behind) =>
    if tag / 8 = 1 ∧ tag % 256 = 10 then
      stored (fun str => { header with serviceName := str }) (wire.inlineGreedyStringParser behind)
    else if tag / 8 = 2 ∧ tag % 256 = 18 then
      stored (fun str => { header with methodName := str }) (wire.inlineGreedyStringParser behind)
    else if tag / 8 = 3 ∧ tag % 256 = 24 then
      stored (fun number => { header with argsSize := number }) (wire.readVarint32 behind)
    else if tag % 8 = 4 ∨ tag = 0 then .stopped header behind
    else
      stored (fun field => { header with unknownFields := header.unknownFields ++ [field] })
        (wire.unknownFieldParse tag behind)

/-- `_InternalParse`. -/
def internalParse (wire : WireFormat Field) :
    RpcHeaderMessage Field → List UInt8 → Ending UInt8 (RpcHeaderMessage Field) :=
  readAll (parseField wire)

/-- `ParseFromString`, into a header that is new: the parse must not have been told to stop. -/
def parseFromString (wire : WireFormat Field) (bytes : List UInt8) :
    Option (RpcHeaderMessage Field) :=
  match internalParse wire create bytes with
  | .reached header _ => some header
  | _ => none

/-- `_InternalSerialize`. -/
def internalSerialize (wire : WireFormat Field) (header : RpcHeaderMessage Field) : List UInt8 :=
  (if header.serviceName.length > 0 then wire.writeBytes 1 header.serviceName else []) ++
    (if header.methodName.length > 0 then wire.writeBytes 2 header.methodName else []) ++
    (if header.argsSize ≠ 0 then wire.writeUInt32 3 header.argsSize else []) ++
    header.unknownFields.flatMap wire.serializeUnknownField

/-- `ByteSizeLong`. -/
def byteSizeLong (wire : WireFormat Field) (header : RpcHeaderMessage Field) : Nat :=
  (if header.serviceName.length > 0 then 1 + wire.bytesSize header.serviceName else 0) +
    (if header.methodName.length > 0 then 1 + wire.bytesSize header.methodName else 0) +
    (if header.argsSize ≠ 0 then 1 + wire.uInt32Size header.argsSize else 0) +
    (header.unknownFields.map wire.unknownFieldSize).sum

/-- The tags that the switch leaves to `UnknownFieldParse`. -/
def Unusual (tag : Nat) : Prop :=
  ¬ (tag / 8 = 1 ∧ tag % 256 = 10) ∧ ¬ (tag / 8 = 2 ∧ tag % 256 = 18) ∧
    ¬ (tag / 8 = 3 ∧ tag % 256 = 24) ∧ ¬ (tag % 8 = 4 ∨ tag = 0)

/-- What can stand in a header: strings of a length that is read, a number of 32 bits, and unknown
fields that were read. -/
structure WellFormed (wire : WireFormat Field) (header : RpcHeaderMessage Field) : Prop where
  serviceName_short : header.serviceName.length < 2 ^ 31 - 16
  methodName_short : header.methodName.length < 2 ^ 31 - 16
  argsSize_fits : header.argsSize < 2 ^ 32
  unknownFields_occur : ∀ field ∈ header.unknownFields, ∃ tag, Unusual tag ∧ wire.Occurs tag field

/-! ### A round -/

theorem stored_eq_reached {Value : Type} {store : Value → RpcHeaderMessage Field}
    {read : Option (Value × List UInt8)} {next : RpcHeaderMessage Field} {rest : List UInt8}
    (here : stored store read = .reached next rest) :
    ∃ value, read = some (value, rest) ∧ next = store value := by
  cases read with
  | none => cases here
  | some pair =>
    obtain ⟨rfl, rfl⟩ := Ending.reached.inj here
    exact ⟨pair.1, rfl, rfl⟩

section

variable {wire : WireFormat Field} {header next : RpcHeaderMessage Field} {bytes behind rest :
  List UInt8} {tag : Nat}

theorem parseField_serviceName (read : wire.readTag bytes = some (tag, behind))
    (isTag : tag / 8 = 1 ∧ tag % 256 = 10) {str : List UInt8}
    (got : wire.inlineGreedyStringParser behind = some (str, rest)) :
    parseField wire header bytes = .reached { header with serviceName := str } rest := by
  unfold parseField
  rw [read]
  simp only
  rw [if_pos isTag, got]
  rfl

theorem parseField_methodName (read : wire.readTag bytes = some (tag, behind))
    (isTag : tag / 8 = 2 ∧ tag % 256 = 18) {str : List UInt8}
    (got : wire.inlineGreedyStringParser behind = some (str, rest)) :
    parseField wire header bytes = .reached { header with methodName := str } rest := by
  unfold parseField
  rw [read]
  simp only
  rw [if_neg (by omega), if_pos isTag, got]
  rfl

theorem parseField_argsSize (read : wire.readTag bytes = some (tag, behind))
    (isTag : tag / 8 = 3 ∧ tag % 256 = 24) {number : Nat}
    (got : wire.readVarint32 behind = some (number, rest)) :
    parseField wire header bytes = .reached { header with argsSize := number } rest := by
  unfold parseField
  rw [read]
  simp only
  rw [if_neg (by omega), if_neg (by omega), if_pos isTag, got]
  rfl

theorem parseField_unknown (read : wire.readTag bytes = some (tag, behind))
    (unusual : Unusual tag) {field : Field}
    (got : wire.unknownFieldParse tag behind = some (field, rest)) :
    parseField wire header bytes =
      .reached { header with unknownFields := header.unknownFields ++ [field] } rest := by
  unfold parseField
  rw [read]
  simp only
  rw [if_neg unusual.1, if_neg unusual.2.1, if_neg unusual.2.2.1, if_neg unusual.2.2.2, got]
  rfl

/-- Everything that a round can read. -/
theorem parseField_cases (here : parseField wire header bytes = .reached next rest) :
    ∃ tag behind, wire.readTag bytes = some (tag, behind) ∧
      ((∃ str, (tag / 8 = 1 ∧ tag % 256 = 10) ∧
          wire.inlineGreedyStringParser behind = some (str, rest) ∧
          next = { header with serviceName := str }) ∨
        (∃ str, (tag / 8 = 2 ∧ tag % 256 = 18) ∧
          wire.inlineGreedyStringParser behind = some (str, rest) ∧
          next = { header with methodName := str }) ∨
        (∃ number, (tag / 8 = 3 ∧ tag % 256 = 24) ∧
          wire.readVarint32 behind = some (number, rest) ∧
          next = { header with argsSize := number }) ∨
        ∃ field, Unusual tag ∧ wire.unknownFieldParse tag behind = some (field, rest) ∧
          next = { header with unknownFields := header.unknownFields ++ [field] }) := by
  unfold parseField at here
  split at here
  · cases here
  · rename_i tag behind read
    refine ⟨tag, behind, read, ?_⟩
    split at here
    · rename_i isTag
      obtain ⟨str, got, same⟩ := stored_eq_reached here
      exact .inl ⟨str, isTag, got, same⟩
    · rename_i notService
      split at here
      · rename_i isTag
        obtain ⟨str, got, same⟩ := stored_eq_reached here
        exact .inr (.inl ⟨str, isTag, got, same⟩)
      · rename_i notMethod
        split at here
        · rename_i isTag
          obtain ⟨number, got, same⟩ := stored_eq_reached here
          exact .inr (.inr (.inl ⟨number, isTag, got, same⟩))
        · rename_i notSize
          split at here
          · cases here
          · rename_i goesOn
            obtain ⟨field, got, same⟩ := stored_eq_reached here
            exact .inr (.inr (.inr
              ⟨field, ⟨notService, notMethod, notSize, goesOn⟩, got, same⟩))

/-- The rounds are rounds of a record loop. -/
theorem parseField_rounds (lawful : wire.Lawful) : Rounds (parseField wire) where
  shorter header bytes next rest here := by
    obtain ⟨tag, behind, read, ⟨str, -, got, -⟩ | ⟨str, -, got, -⟩ | ⟨number, -, got, -⟩ |
      ⟨field, -, got, -⟩⟩ := parseField_cases here
    · have taken := lawful.tag_local.takes _ _ _ read
      have left := lawful.string_local.takes _ _ _ got
      omega
    · have taken := lawful.tag_local.takes _ _ _ read
      have left := lawful.string_local.takes _ _ _ got
      omega
    · have taken := lawful.tag_local.takes _ _ _ read
      have left := lawful.varint_local.takes _ _ _ got
      omega
    · have taken := lawful.tag_local.takes _ _ _ read
      have left := (lawful.unknown_local tag).takes _ _ _ got
      omega
  before header bytes next rest here more := by
    obtain ⟨tag, behind, read, others⟩ := parseField_cases here
    have again := lawful.tag_local.before _ _ _ read more
    rcases others with ⟨str, isTag, got, rfl⟩ | ⟨str, isTag, got, rfl⟩ |
      ⟨number, isTag, got, rfl⟩ | ⟨field, unusual, got, rfl⟩
    · exact parseField_serviceName again isTag (lawful.string_local.before _ _ _ got more)
    · exact parseField_methodName again isTag (lawful.string_local.before _ _ _ got more)
    · exact parseField_argsSize again isTag (lawful.varint_local.before _ _ _ got more)
    · exact parseField_unknown again unusual ((lawful.unknown_local tag).before _ _ _ got more)

end

/-! ### What is written is merged -/

section

variable {wire : WireFormat Field} (lawful : wire.Lawful)

include lawful

theorem internalParse_serviceName (header : RpcHeaderMessage Field) {value : List UInt8}
    (short : value.length < 2 ^ 31 - 16) (rest : List UInt8) :
    internalParse wire header
        ((if value.length > 0 then wire.writeBytes 1 value else []) ++ rest) =
      internalParse wire { header with
        serviceName := if value.length > 0 then value else header.serviceName } rest := by
  split
  · obtain ⟨behind, read, got⟩ :=
      lawful.bytes_read 1 value rest (by norm_num) (by norm_num) short
    exact readAll_reached (parseField_rounds lawful)
      (parseField_serviceName read (by norm_num) got)
  · rfl

theorem internalParse_methodName (header : RpcHeaderMessage Field) {value : List UInt8}
    (short : value.length < 2 ^ 31 - 16) (rest : List UInt8) :
    internalParse wire header
        ((if value.length > 0 then wire.writeBytes 2 value else []) ++ rest) =
      internalParse wire { header with
        methodName := if value.length > 0 then value else header.methodName } rest := by
  split
  · obtain ⟨behind, read, got⟩ :=
      lawful.bytes_read 2 value rest (by norm_num) (by norm_num) short
    exact readAll_reached (parseField_rounds lawful)
      (parseField_methodName read (by norm_num) got)
  · rfl

theorem internalParse_argsSize (header : RpcHeaderMessage Field) {value : Nat}
    (fits : value < 2 ^ 32) (rest : List UInt8) :
    internalParse wire header ((if value ≠ 0 then wire.writeUInt32 3 value else []) ++ rest) =
      internalParse wire { header with
        argsSize := if value ≠ 0 then value else header.argsSize } rest := by
  split
  · obtain ⟨behind, read, got⟩ :=
      lawful.uInt32_read 3 value rest (by norm_num) (by norm_num) fits
    exact readAll_reached (parseField_rounds lawful) (parseField_argsSize read (by norm_num) got)
  · rfl

theorem internalParse_unknownFields (header : RpcHeaderMessage Field) {fields : List Field}
    (occur : ∀ field ∈ fields, ∃ tag, Unusual tag ∧ wire.Occurs tag field) (rest : List UInt8) :
    internalParse wire header (fields.flatMap wire.serializeUnknownField ++ rest) =
      internalParse wire { header with unknownFields := header.unknownFields ++ fields } rest := by
  induction fields generalizing header with
  | nil => rw [List.flatMap_nil, List.nil_append, List.append_nil]
  | cons field fields inductionHypothesis =>
    obtain ⟨⟨tag, unusual, occurs⟩, others⟩ := List.forall_mem_cons.mp occur
    obtain ⟨behind, read, got⟩ := lawful.unknown_read tag field
      (fields.flatMap wire.serializeUnknownField ++ rest) occurs
    rw [List.flatMap_cons, List.append_assoc]
    refine (readAll_reached (parseField_rounds lawful)
      (parseField_unknown read unusual got)).trans ?_
    refine (inductionHypothesis _ others).trans ?_
    rw [List.append_assoc, List.singleton_append]

/-- Parsing a serialization merges its header, and goes on behind it. -/
theorem internalParse_serialize (header : RpcHeaderMessage Field) {other : RpcHeaderMessage Field}
    (wellFormed : other.WellFormed wire) (rest : List UInt8) :
    internalParse wire header (other.internalSerialize wire ++ rest) =
      internalParse wire (header.mergeFrom other) rest := by
  unfold internalSerialize
  rw [List.append_assoc, List.append_assoc, List.append_assoc,
    internalParse_serviceName lawful _ wellFormed.serviceName_short,
    internalParse_methodName lawful _ wellFormed.methodName_short,
    internalParse_argsSize lawful _ wellFormed.argsSize_fits,
    internalParse_unknownFields lawful _ wellFormed.unknownFields_occur]
  rfl

/-- A serialization is as long as the header says. -/
theorem internalSerialize_length {header : RpcHeaderMessage Field}
    (wellFormed : header.WellFormed wire) :
    (header.internalSerialize wire).length = header.byteSizeLong wire := by
  have string (number : Nat) (value : List UInt8) (positive : 0 < number) (small : number < 16)
      (short : value.length < 2 ^ 31 - 16) :
      (if value.length > 0 then wire.writeBytes number value else []).length =
        if value.length > 0 then 1 + wire.bytesSize value else 0 := by
    split
    · exact lawful.bytes_written number value positive small short
    · rfl
  have number (value : Nat) (fits : value < 2 ^ 32) :
      (if value ≠ 0 then wire.writeUInt32 3 value else []).length =
        if value ≠ 0 then 1 + wire.uInt32Size value else 0 := by
    split
    · exact lawful.uInt32_written 3 value (by norm_num) (by norm_num) fits
    · rfl
  have unknown : (header.unknownFields.flatMap wire.serializeUnknownField).length =
      (header.unknownFields.map wire.unknownFieldSize).sum := by
    rw [List.length_flatMap]
    refine congrArg List.sum (List.map_congr_left fun field member => ?_)
    obtain ⟨tag, -, occurs⟩ := wellFormed.unknownFields_occur field member
    exact lawful.unknown_written tag field occurs
  unfold internalSerialize byteSizeLong
  rw [List.length_append, List.length_append, List.length_append, unknown,
    number _ wellFormed.argsSize_fits,
    string 1 _ (by norm_num) (by norm_num) wellFormed.serviceName_short,
    string 2 _ (by norm_num) (by norm_num) wellFormed.methodName_short]

end

/-! ### What is parsed can be written -/

section

variable {wire : WireFormat Field} {header : RpcHeaderMessage Field}

theorem create_mergeFrom (header : RpcHeaderMessage Field) : create.mergeFrom header = header := by
  have string (value : List UInt8) : (if value.length > 0 then value else []) = value := by
    cases value <;> rfl
  have number (value : Nat) : (if value ≠ 0 then value else 0) = value := by
    by_cases zero : value = 0
    · rw [if_neg (not_not.mpr zero), zero]
    · rw [if_pos zero]
  unfold mergeFrom create
  simp only [string, number, List.nil_append]

/-- A copy is the header that was copied. -/
theorem copyFrom_eq (header other : RpcHeaderMessage Field) : header.copyFrom other = other :=
  create_mergeFrom other

/-- What the parse keeps: with the bytes that are left, the header is no longer than all of them.
Its number has 32 bits, and its unknown fields were read. -/
structure Parsed (wire : WireFormat Field) (bound : Nat) (header : RpcHeaderMessage Field)
    (rest : List UInt8) : Prop where
  size : header.byteSizeLong wire + rest.length ≤ bound
  argsSize_fits : header.argsSize < 2 ^ 32
  unknownFields_occur : ∀ field ∈ header.unknownFields, ∃ tag, Unusual tag ∧ wire.Occurs tag field

theorem parsed_create (wire : WireFormat Field) (bytes : List UInt8) :
    Parsed wire bytes.length create bytes := by
  refine ⟨?_, by norm_num [create], nofun⟩
  simp [byteSizeLong, create]

/-- A round keeps it. -/
theorem parsed_round (lawful : wire.Lawful) {bound : Nat} {next : RpcHeaderMessage Field}
    {bytes rest : List UInt8} (here : parseField wire header bytes = .reached next rest)
    (parsed : Parsed wire bound header bytes) : Parsed wire bound next rest := by
  have size := parsed.size
  obtain ⟨tag, behind, read, others⟩ := parseField_cases here
  have taken := lawful.tag_local.takes _ _ _ read
  -- A field that is stored again takes the place of the one that was there.
  have string (value : List UInt8) :
      (if value.length > 0 then 1 + wire.bytesSize value else 0) ≤ 1 + wire.bytesSize value := by
    split <;> omega
  rcases others with ⟨str, -, got, rfl⟩ | ⟨str, -, got, rfl⟩ | ⟨number, -, got, rfl⟩ |
    ⟨field, unusual, got, rfl⟩
  · have left := lawful.string_local.takes _ _ _ got
    have stores := string str
    refine ⟨?_, parsed.argsSize_fits, parsed.unknownFields_occur⟩
    unfold byteSizeLong at size ⊢
    simp only at size ⊢
    omega
  · have left := lawful.string_local.takes _ _ _ got
    have stores := string str
    refine ⟨?_, parsed.argsSize_fits, parsed.unknownFields_occur⟩
    unfold byteSizeLong at size ⊢
    simp only at size ⊢
    omega
  · have left := lawful.varint_local.takes _ _ _ got
    have stores : (if number ≠ 0 then 1 + wire.uInt32Size number else 0) ≤
        1 + wire.uInt32Size number := by
      split <;> omega
    refine ⟨?_, lawful.varint_fits _ _ _ got, parsed.unknownFields_occur⟩
    unfold byteSizeLong at size ⊢
    simp only at size ⊢
    omega
  · have left := lawful.unknown_size _ _ _ _ _ read got
    refine ⟨?_, parsed.argsSize_fits, fun other member => ?_⟩
    · unfold byteSizeLong at size ⊢
      simp only at size ⊢
      rw [List.map_append, List.sum_append, List.map_singleton, List.sum_singleton]
      omega
    · rcases List.mem_append.mp member with before | last
      · exact parsed.unknownFields_occur other before
      · obtain rfl := List.mem_singleton.mp last
        exact ⟨tag, unusual, bytes, behind, rest, read, got⟩

theorem parseFromString_eq_some {bytes : List UInt8} :
    parseFromString wire bytes = some header ↔
      ∃ rest, internalParse wire create bytes = .reached header rest := by
  unfold parseFromString
  cases internalParse wire create bytes with
  | failed => exact iff_of_false nofun nofun
  | stopped state rest => exact iff_of_false nofun nofun
  | reached state rest =>
    exact ⟨fun same => ⟨rest, by rw [Option.some.inj same]⟩,
      fun ⟨_, same⟩ => congrArg some (Ending.reached.inj same).1⟩

theorem parsed_of_parseFromString (lawful : wire.Lawful) {bytes : List UInt8}
    (parses : parseFromString wire bytes = some header) : Parsed wire bytes.length header [] := by
  obtain ⟨rest, reaches⟩ := parseFromString_eq_some.mp parses
  obtain ⟨parsed, rfl⟩ := readAll_invariant (parseField_rounds lawful) (Parsed wire bytes.length)
    (fun _ _ _ _ here before => parsed_round lawful here before) reaches
    (parsed_create wire bytes)
  exact parsed

/-- A header that was parsed is well formed, where there were not too many bytes for a string. -/
theorem Parsed.wellFormed (lawful : wire.Lawful) {bound : Nat} {rest : List UInt8}
    (parsed : Parsed wire bound header rest) (short : bound < 2 ^ 31 - 16) :
    header.WellFormed wire := by
  have size := parsed.size
  have service := lawful.length_le_bytesSize header.serviceName
  have method := lawful.length_le_bytesSize header.methodName
  unfold byteSizeLong at size
  refine ⟨?_, ?_, parsed.argsSize_fits, parsed.unknownFields_occur⟩
  · by_contra long
    rw [if_pos (by omega)] at size
    omega
  · by_contra long
    rw [if_pos (by omega : header.methodName.length > 0)] at size
    omega

/-- What parses to a header and then its serialization parse to their merge. -/
theorem parse_append_serialize (lawful : wire.Lawful) {bytes : List UInt8}
    (parses : parseFromString wire bytes = some header) {other : RpcHeaderMessage Field}
    (wellFormed : other.WellFormed wire) :
    parseFromString wire (bytes ++ other.internalSerialize wire) =
      some (header.mergeFrom other) := by
  obtain ⟨rest, reaches⟩ := parseFromString_eq_some.mp parses
  refine parseFromString_eq_some.mpr ⟨[], ?_⟩
  refine (readAll_append (parseField_rounds lawful) reaches _).trans ?_
  have merges := internalParse_serialize lawful header wellFormed []
  rw [List.append_nil] at merges
  exact merges

theorem parse_serialize (lawful : wire.Lawful) (wellFormed : header.WellFormed wire) :
    parseFromString wire (header.internalSerialize wire) = some header := by
  have parses : parseFromString wire ([] ++ header.internalSerialize wire) =
      some (create.mergeFrom header) := parse_append_serialize lawful rfl wellFormed
  rw [List.nil_append, create_mergeFrom] at parses
  exact parses

end

end RpcHeaderMessage

/-! ### A wire format -/

namespace PlainWire

open RpcProvider

/-- A number in base 128, the lowest digit first, of at most so many digits. -/
def readNumber : Nat → Reader UInt8 Nat
  | 0, _ => none
  | _ + 1, [] => none
  | digits + 1, byte :: rest =>
    if byte.toNat < 128 then some (byte.toNat, rest)
    else (readNumber digits rest).map fun higher =>
      (byte.toNat - 128 + 128 * higher.1, higher.2)

/-- The digits behind the first one are a number. -/
theorem readNumber_marked {digits number : Nat} {byte : UInt8} {bytes rest : List UInt8}
    (marked : ¬ byte.toNat < 128)
    (read : readNumber (digits + 1) (byte :: bytes) = some (number, rest)) :
    ∃ higher, readNumber digits bytes = some (higher, rest) ∧
      number = byte.toNat - 128 + 128 * higher := by
  rw [readNumber, if_neg marked] at read
  obtain ⟨⟨higher, left⟩, isHigher, same⟩ := Option.map_eq_some_iff.mp read
  obtain ⟨rfl, rfl⟩ := Prod.mk.inj same
  exact ⟨higher, isHigher, rfl⟩

/-- A number has at most as many digits as bytes were taken. -/
theorem readNumber_lt {digits number : Nat} {bytes rest : List UInt8}
    (read : readNumber digits bytes = some (number, rest)) :
    ∃ taken, number < 128 ^ (taken + 1) ∧ bytes.length = taken + 1 + rest.length := by
  induction digits generalizing number bytes with
  | zero => cases read
  | succ digits inductionHypothesis =>
    cases bytes with
    | nil => cases read
    | cons byte bytes =>
      by_cases marked : byte.toNat < 128
      · rw [readNumber, if_pos marked] at read
        obtain ⟨rfl, rfl⟩ := Prod.mk.inj (Option.some.inj read)
        exact ⟨0, by simpa using marked, by rw [List.length_cons]; omega⟩
      · obtain ⟨higher, isHigher, rfl⟩ := readNumber_marked marked read
        obtain ⟨taken, small, size⟩ := inductionHypothesis isHigher
        have digit := byte.toNat_lt
        refine ⟨taken + 1, ?_, by rw [List.length_cons]; omega⟩
        rw [pow_succ]
        omega

theorem readNumber_before {digits number : Nat} {bytes rest : List UInt8}
    (read : readNumber digits bytes = some (number, rest)) (more : List UInt8) :
    readNumber digits (bytes ++ more) = some (number, rest ++ more) := by
  induction digits generalizing number bytes with
  | zero => cases read
  | succ digits inductionHypothesis =>
    cases bytes with
    | nil => cases read
    | cons byte bytes =>
      by_cases marked : byte.toNat < 128
      · rw [readNumber, if_pos marked] at read
        obtain ⟨rfl, rfl⟩ := Prod.mk.inj (Option.some.inj read)
        rw [List.cons_append, readNumber, if_pos marked]
      · obtain ⟨higher, isHigher, rfl⟩ := readNumber_marked marked read
        rw [List.cons_append, readNumber, if_neg marked, inductionHypothesis isHigher]
        rfl

theorem readNumber_write {digits limit number : Nat} (fits : number < 128 ^ (digits + 1))
    (enough : digits < limit) (rest : List UInt8) :
    readNumber limit (writeBase128 digits number ++ rest) = some (number, rest) := by
  have last {number limit : Nat} (positive : 0 < limit) (small : number < 128) :
      readNumber limit (UInt8.ofNat number :: rest) = some (number, rest) := by
    obtain ⟨limit, rfl⟩ := Nat.exists_eq_add_of_lt positive
    have value : (UInt8.ofNat number).toNat = number := Nat.mod_eq_of_lt (by omega)
    rw [readNumber, value, if_pos small]
  induction digits generalizing number limit with
  | zero => exact last enough (by simpa using fits)
  | succ digits inductionHypothesis =>
    rw [writeBase128]
    split
    · rename_i small
      exact last (by omega) small
    · obtain ⟨limit, rfl⟩ : ∃ fewer, limit = fewer + 1 := ⟨limit - 1, by omega⟩
      have marked : (UInt8.ofNat (number % 128 + 128)).toNat = number % 128 + 128 :=
        Nat.mod_eq_of_lt (by omega)
      have higher : number / 128 < 128 ^ (digits + 1) := by
        rw [Nat.div_lt_iff_lt_mul (by norm_num), ← pow_succ]
        exact fits
      rw [List.cons_append, readNumber, marked, if_neg (by omega),
        inductionHypothesis higher (by omega), Option.map_some]
      simp only
      rw [Nat.add_sub_cancel, Nat.mod_add_div]

/-- A number is written with as few digits as it has. -/
theorem writeBase128_length_le {number taken : Nat} (small : number < 128 ^ (taken + 1))
    (digits : Nat) : (writeBase128 digits number).length ≤ taken + 1 := by
  induction taken generalizing number digits with
  | zero =>
    have digit : number < 128 := by simpa using small
    cases digits with
    | zero => exact le_rfl
    | succ digits =>
      rw [writeBase128, if_pos digit]
      exact le_rfl
  | succ taken inductionHypothesis =>
    cases digits with
    | zero => exact Nat.le_add_left 1 _
    | succ digits =>
      rw [writeBase128]
      split
      · exact Nat.le_add_left 1 _
      · have higher : number / 128 < 128 ^ (taken + 1) := by
          rw [Nat.div_lt_iff_lt_mul (by norm_num), ← pow_succ]
          exact small
        exact Nat.succ_le_succ (inductionHypothesis higher digits)

/-- A number that is read and cut off is written in no more bytes than it was read from. -/
theorem writeBase128_readNumber {limit number : Nat} {bytes rest : List UInt8}
    (read : readNumber limit bytes = some (number, rest)) (digits modulus : Nat) :
    (writeBase128 digits (number % modulus)).length + rest.length ≤ bytes.length := by
  obtain ⟨taken, small, size⟩ := readNumber_lt read
  have written := writeBase128_length_le ((Nat.mod_le number modulus).trans_lt small) digits
  omega

/-- A string behind its size. -/
def readString (bytes : List UInt8) : Option (List UInt8 × List UInt8) :=
  (readNumber 5 bytes).bind fun size =>
    if size.1 < 2 ^ 31 - 16 ∧ size.1 ≤ size.2.length then
      some (size.2.take size.1, size.2.drop size.1)
    else none

/-- How long a string is behind its size. -/
def stringSize (value : List UInt8) : Nat :=
  (writeBase128 4 value.length).length + value.length

/-- An unknown field behind its tag: a number or a string. Other ways of writing one are refused. -/
def readField (tag : Nat) (bytes : List UInt8) :
    Option ((Nat × (Nat ⊕ List UInt8)) × List UInt8) :=
  if tag / 8 = 0 then none
  else if tag % 8 = 0 then
    (readNumber 10 bytes).map fun number => ((tag, .inl (number.1 % 2 ^ 64)), number.2)
  else if tag % 8 = 2 then
    (readString bytes).map fun value => ((tag, .inr value.1), value.2)
  else none

def writeField : Nat × (Nat ⊕ List UInt8) → List UInt8
  | (tag, .inl number) => writeBase128 4 tag ++ writeBase128 9 number
  | (tag, .inr value) => writeBase128 4 tag ++ (writeBase128 4 value.length ++ value)

theorem readString_eq_some {bytes value rest : List UInt8}
    (read : readString bytes = some (value, rest)) :
    ∃ size left, readNumber 5 bytes = some (size, left) ∧ size < 2 ^ 31 - 16 ∧
      size ≤ left.length ∧ value = left.take size ∧ rest = left.drop size := by
  obtain ⟨⟨size, left⟩, number, string⟩ := Option.bind_eq_some_iff.mp read
  split at string
  · rename_i inside
    obtain ⟨rfl, rfl⟩ := Prod.mk.inj (Option.some.inj string)
    exact ⟨size, left, number, inside.1, inside.2, rfl, rfl⟩
  · cases string

theorem readString_local : Reader.Local readString stringSize where
  takes bytes value rest read := by
    obtain ⟨size, left, number, short, inside, rfl, rfl⟩ := readString_eq_some read
    have written := writeBase128_readNumber number 4 (2 ^ 31)
    rw [Nat.mod_eq_of_lt (by omega)] at written
    unfold stringSize
    rw [List.length_take_of_le inside, List.length_drop]
    omega
  before bytes value rest read more := by
    obtain ⟨size, left, number, short, inside, rfl, rfl⟩ := readString_eq_some read
    unfold readString
    rw [readNumber_before number, Option.bind_some, if_pos ⟨short, by
      rw [List.length_append]
      omega⟩, List.take_append_of_le_length inside, List.drop_append_of_le_length inside]

theorem readString_write {value : List UInt8} (short : value.length < 2 ^ 31 - 16)
    (rest : List UInt8) :
    readString (writeBase128 4 value.length ++ value ++ rest) = some (value, rest) := by
  have number : readNumber 5 (writeBase128 4 value.length ++ (value ++ rest)) =
      some (value.length, value ++ rest) :=
    readNumber_write (by norm_num at short ⊢; omega) (by norm_num) _
  unfold readString
  rw [List.append_assoc, number, Option.bind_some, if_pos ⟨short, by
    rw [List.length_append]
    omega⟩, List.take_left, List.drop_left]

/-- Tags are written like numbers, and read with 32 bits. -/
def readTag (bytes : List UInt8) : Option (Nat × List UInt8) :=
  (readNumber 5 bytes).map fun number => (number.1 % 2 ^ 32, number.2)

theorem readTag_eq_some {bytes rest : List UInt8} {tag : Nat}
    (read : readTag bytes = some (tag, rest)) :
    ∃ number, readNumber 5 bytes = some (number, rest) ∧ tag = number % 2 ^ 32 := by
  obtain ⟨⟨number, left⟩, isNumber, same⟩ := Option.map_eq_some_iff.mp read
  obtain ⟨rfl, rfl⟩ := Prod.mk.inj same
  exact ⟨number, isNumber, rfl⟩

theorem readTag_write {tag : Nat} (fits : tag < 2 ^ 32) (rest : List UInt8) :
    readTag (writeBase128 4 tag ++ rest) = some (tag, rest) := by
  unfold readTag
  rw [readNumber_write (by norm_num at fits ⊢; omega) (by norm_num), Option.map_some]
  simp only
  rw [Nat.mod_eq_of_lt fits]

/-- A tag takes as much as it would if it were written. -/
theorem readTag_size {bytes rest : List UInt8} {tag : Nat}
    (read : readTag bytes = some (tag, rest)) :
    (writeBase128 4 tag).length + rest.length ≤ bytes.length := by
  obtain ⟨number, isNumber, rfl⟩ := readTag_eq_some read
  exact writeBase128_readNumber isNumber 4 (2 ^ 32)

/-- What an unknown field is. -/
theorem readField_eq_some {tag : Nat} {bytes rest : List UInt8}
    {field : Nat × (Nat ⊕ List UInt8)} (read : readField tag bytes = some (field, rest)) :
    tag / 8 ≠ 0 ∧
      ((tag % 8 = 0 ∧ ∃ number, readNumber 10 bytes = some (number, rest) ∧
          field = (tag, .inl (number % 2 ^ 64))) ∨
        (tag % 8 = 2 ∧ ∃ value, readString bytes = some (value, rest) ∧
          field = (tag, .inr value))) := by
  unfold readField at read
  split at read
  · cases read
  rename_i numbered
  refine ⟨numbered, ?_⟩
  split at read
  · rename_i isNumber
    obtain ⟨⟨number, left⟩, got, same⟩ := Option.map_eq_some_iff.mp read
    obtain ⟨rfl, rfl⟩ := Prod.mk.inj same
    exact .inl ⟨isNumber, number, got, rfl⟩
  · split at read
    · rename_i isString
      obtain ⟨⟨value, left⟩, got, same⟩ := Option.map_eq_some_iff.mp read
      obtain ⟨rfl, rfl⟩ := Prod.mk.inj same
      exact .inr ⟨isString, value, got, rfl⟩
    · cases read

theorem readField_number {tag number : Nat} {bytes rest : List UInt8} (numbered : tag / 8 ≠ 0)
    (isNumber : tag % 8 = 0) (read : readNumber 10 bytes = some (number, rest)) :
    readField tag bytes = some ((tag, .inl (number % 2 ^ 64)), rest) := by
  unfold readField
  rw [if_neg numbered, if_pos isNumber, read]
  rfl

theorem readField_string {tag : Nat} {bytes value rest : List UInt8} (numbered : tag / 8 ≠ 0)
    (isString : tag % 8 = 2) (read : readString bytes = some (value, rest)) :
    readField tag bytes = some ((tag, .inr value), rest) := by
  unfold readField
  rw [if_neg numbered, if_neg (by omega), if_pos isString, read]
  rfl

end PlainWire

open PlainWire RpcProvider in
/-- The wire format, for unknown fields that are numbers or strings. -/
def plainWire : WireFormat (Nat × (Nat ⊕ List UInt8)) where
  readTag := readTag
  inlineGreedyStringParser := readString
  readVarint32 bytes := (readNumber 10 bytes).map fun number => (number.1 % 2 ^ 32, number.2)
  unknownFieldParse := readField
  writeBytes number value :=
    writeBase128 4 (number * 8 + 2) ++ (writeBase128 4 value.length ++ value)
  writeUInt32 number value := writeBase128 4 (number * 8) ++ writeBase128 4 value
  serializeUnknownField := writeField
  bytesSize := stringSize
  uInt32Size value := (writeBase128 4 value).length
  unknownFieldSize field := (writeField field).length

open PlainWire RpcProvider in
/-- The tag of a short field is one byte. -/
theorem writeBase128_tag_length {number : Nat} (kind : Nat) (small : number < 16)
    (isKind : kind < 8) : (writeBase128 4 (number * 8 + kind)).length = 1 := by
  rw [writeBase128, if_pos (by omega)]
  rfl

open PlainWire RpcProvider in
theorem plainWire_lawful : plainWire.Lawful where
  tag_local :=
    { takes := fun bytes tag rest read => by
        have size := readTag_size read
        have nonempty := List.length_pos_of_ne_nil (writeBase128_ne_nil 4 tag)
        omega
      before := fun bytes tag rest read more => by
        obtain ⟨number, isNumber, rfl⟩ := readTag_eq_some read
        show readTag (bytes ++ more) = _
        unfold readTag
        rw [readNumber_before isNumber]
        rfl }
  string_local := readString_local
  varint_local :=
    { takes := fun bytes value rest read => by
        obtain ⟨⟨number, left⟩, isNumber, same⟩ := Option.map_eq_some_iff.mp read
        obtain ⟨rfl, rfl⟩ := Prod.mk.inj same
        exact writeBase128_readNumber isNumber 4 (2 ^ 32)
      before := fun bytes value rest read more => by
        obtain ⟨⟨number, left⟩, isNumber, same⟩ := Option.map_eq_some_iff.mp read
        obtain ⟨rfl, rfl⟩ := Prod.mk.inj same
        show (readNumber 10 (bytes ++ more)).map _ = _
        rw [readNumber_before isNumber]
        rfl }
  unknown_local tag :=
    { takes := fun bytes field rest read => by
        rw [Nat.zero_add]
        obtain ⟨-, ⟨-, number, got, -⟩ | ⟨-, value, got, -⟩⟩ := readField_eq_some read
        · exact (Nat.le_add_left _ _).trans (writeBase128_readNumber got 9 1)
        · exact (Nat.le_add_left _ _).trans (readString_local.takes _ _ _ got)
      before := fun bytes field rest read more => by
        obtain ⟨numbered, ⟨isNumber, number, got, rfl⟩ | ⟨isString, value, got, rfl⟩⟩ :=
          readField_eq_some read
        · exact readField_number numbered isNumber (readNumber_before got more)
        · exact readField_string numbered isString (readString_local.before _ _ _ got more) }
  varint_fits bytes value rest read := by
    obtain ⟨number, -, same⟩ := Option.map_eq_some_iff.mp read
    rw [← (Prod.mk.inj same).1]
    exact Nat.mod_lt _ (by norm_num)
  unknown_size bytes tag behind field rest read got := by
    have isTag := readTag_size read
    obtain ⟨-, ⟨-, number, isNumber, rfl⟩ | ⟨-, value, isString, rfl⟩⟩ := readField_eq_some got
    · have written := writeBase128_readNumber isNumber 9 (2 ^ 64)
      show (writeBase128 4 tag ++ writeBase128 9 (number % 2 ^ 64)).length + rest.length ≤ _
      rw [List.length_append]
      omega
    · have written := readString_local.takes _ _ _ isString
      unfold stringSize at written
      show (writeBase128 4 tag ++ (writeBase128 4 value.length ++ value)).length + rest.length ≤ _
      rw [List.length_append, List.length_append]
      omega
  bytes_read number value rest positive small short := by
    refine ⟨writeBase128 4 value.length ++ value ++ rest, ?_, readString_write short rest⟩
    show readTag (writeBase128 4 (number * 8 + 2) ++ (writeBase128 4 value.length ++ value) ++
      rest) = _
    rw [List.append_assoc]
    exact readTag_write (by omega) _
  uInt32_read number value rest positive small fits := by
    refine ⟨writeBase128 4 value ++ rest, ?_, ?_⟩
    · show readTag (writeBase128 4 (number * 8) ++ writeBase128 4 value ++ rest) = _
      rw [List.append_assoc]
      exact readTag_write (by omega) _
    · show (readNumber 10 (writeBase128 4 value ++ rest)).map _ = _
      rw [readNumber_write (by norm_num at fits ⊢; omega) (by norm_num), Option.map_some]
      simp only
      rw [Nat.mod_eq_of_lt fits]
  unknown_read tag field rest occurs := by
    obtain ⟨bytes, behind, left, read, got⟩ := occurs
    obtain ⟨tagNumber, -, isTag⟩ := readTag_eq_some read
    have fits : tag < 2 ^ 32 := isTag ▸ Nat.mod_lt _ (by norm_num)
    obtain ⟨numbered, ⟨isNumber, number, -, rfl⟩ | ⟨isString, value, string, rfl⟩⟩ :=
      readField_eq_some got
    · refine ⟨writeBase128 9 (number % 2 ^ 64) ++ rest, ?_, ?_⟩
      · show readTag (writeBase128 4 tag ++ writeBase128 9 (number % 2 ^ 64) ++ rest) = _
        rw [List.append_assoc]
        exact readTag_write fits _
      · have bounded : number % 2 ^ 64 < 128 ^ (9 + 1) :=
          (Nat.mod_lt number (by norm_num)).trans (by norm_num)
        have again := readField_number numbered isNumber
          (readNumber_write bounded (by norm_num : 9 < 10) rest)
        rw [Nat.mod_mod] at again
        exact again
    · obtain ⟨size, all, -, short, inside, rfl, -⟩ := readString_eq_some string
      have isShort : (all.take size).length < 2 ^ 31 - 16 := by
        rw [List.length_take_of_le inside]
        exact short
      refine ⟨writeBase128 4 (all.take size).length ++ all.take size ++ rest, ?_,
        readField_string numbered isString (readString_write isShort rest)⟩
      show readTag (writeBase128 4 tag ++ (writeBase128 4 (all.take size).length ++
        all.take size) ++ rest) = _
      rw [List.append_assoc]
      exact readTag_write fits _
  bytes_written number value positive small short := by
    show (writeBase128 4 (number * 8 + 2) ++ (writeBase128 4 value.length ++ value)).length = _
    rw [List.length_append, writeBase128_tag_length 2 small (by norm_num), List.length_append]
    rfl
  uInt32_written number value positive small fits := by
    show (writeBase128 4 (number * 8 + 0) ++ writeBase128 4 value).length = _
    rw [List.length_append, writeBase128_tag_length 0 small (by norm_num)]
    rfl
  unknown_written tag field occurs := rfl
  length_le_bytesSize value := Nat.le_add_left _ _

namespace RpcHeaderMessage

/-! ### The format is sound -/

/-- The header of a request to log in, with a field of another version. -/
def loginHeader : RpcHeaderMessage (Nat × (Nat ⊕ List UInt8)) where
  serviceName := text "User"
  methodName := text "Login"
  argsSize := 2
  unknownFields := [(40, .inl 7)]

theorem loginHeader_wellFormed : loginHeader.WellFormed plainWire := by
  refine ⟨by decide, by decide, by decide, ?_⟩
  refine List.forall_mem_singleton.mpr ⟨40, ?_, [40, 7], [7], [], by decide, by decide⟩
  unfold Unusual
  decide

/-- The serialization of a header behind any bytes that parse merges the header into theirs, and it
is as long as the header says. -/
theorem serialization_merges (wire : WireFormat Field) (lawful : wire.Lawful)
    (bytes : List UInt8) (header other : RpcHeaderMessage Field)
    (parses : parseFromString wire bytes = some header) (wellFormed : other.WellFormed wire) :
    parseFromString wire (bytes ++ other.internalSerialize wire) =
        some (header.mergeFrom other) ∧
      (other.internalSerialize wire).length = other.byteSizeLong wire :=
  ⟨parse_append_serialize lawful parses wellFormed, internalSerialize_length lawful wellFormed⟩

/-- Bytes that set the method twice and the size of the arguments. -/
theorem serialization_merges_login :
    parseFromString plainWire ([18, 1, 65, 24, 9, 18, 1, 66] ++
        loginHeader.internalSerialize plainWire) =
      some (({ create with methodName := [66], argsSize := 9 } :
        RpcHeaderMessage _).mergeFrom loginHeader) ∧
      (loginHeader.internalSerialize plainWire).length = loginHeader.byteSizeLong plainWire :=
  serialization_merges plainWire plainWire_lawful [18, 1, 65, 24, 9, 18, 1, 66]
    { create with methodName := [66], argsSize := 9 } loginHeader (by decide)
    loginHeader_wellFormed

/-- Whatever parses, in any order and with repetitions and unknown fields, parses to a header that
is well formed. Its serialization is no longer, and parses to the same header. -/
theorem parse_normalizes (wire : WireFormat Field) (lawful : wire.Lawful) (bytes : List UInt8)
    (header : RpcHeaderMessage Field) (parses : parseFromString wire bytes = some header)
    (short : bytes.length < 2 ^ 31 - 16) :
    header.WellFormed wire ∧
      parseFromString wire (header.internalSerialize wire) = some header ∧
      (header.internalSerialize wire).length ≤ bytes.length := by
  have parsed := parsed_of_parseFromString lawful parses
  have wellFormed := parsed.wellFormed lawful short
  refine ⟨wellFormed, parse_serialize lawful wellFormed, ?_⟩
  rw [internalSerialize_length lawful wellFormed]
  exact parsed.size

/-- The fields of the header the other way round, with a number in too many digits and an empty
name that is overwritten. -/
theorem parse_normalizes_login :
    loginHeader.WellFormed plainWire ∧
      parseFromString plainWire (loginHeader.internalSerialize plainWire) = some loginHeader ∧
      (loginHeader.internalSerialize plainWire).length ≤
        ([40, 7, 24, 130, 128, 0, 10, 0, 18, 5] ++ text "Login" ++ 10 :: 4 :: text "User").length :=
  parse_normalizes plainWire plainWire_lawful
    ([40, 7, 24, 130, 128, 0, 10, 0, 18, 5] ++ text "Login" ++ 10 :: 4 :: text "User") loginHeader
    (by decide +kernel) (by decide)

/-! ### Requests with this header -/

/-- The codec of both ends, with the generated header over some coded streams. -/
def codec (wire : WireFormat Field) (streams : RpcCodec) : RpcCodec :=
  { streams with
    serialize := fun header => internalSerialize wire ⟨header, []⟩
    parse := fun bytes => (parseFromString wire bytes).map toRpcHeader }

theorem codec_lawful (wire : WireFormat Field) {streams : RpcCodec} (lawful : streams.Lawful) :
    (codec wire streams).Lawful where
  varint_nonempty := lawful.varint_nonempty
  varint_length := lawful.varint_length
  varint_read := lawful.varint_read
  varint_left := lawful.varint_left
  string_read := lawful.string_read
  string_short := lawful.string_short
  string_parts := lawful.string_parts

/-- The generated code serializes a header with a name as the two ends need it. -/
theorem codec_serializes {wire : WireFormat Field} (lawful : wire.Lawful) (streams : RpcCodec)
    {header : RpcHeader} (named : header.serviceName ≠ [])
    (wellFormed : WellFormed wire ⟨header, []⟩) : (codec wire streams).Serializes header where
  nonempty := by
    have size := internalSerialize_length lawful wellFormed
    rw [byteSizeLong, if_pos (List.length_pos_of_ne_nil named)] at size
    refine List.ne_nil_of_length_pos ?_
    show 0 < (internalSerialize wire ⟨header, []⟩).length
    omega
  inverse := by
    show (parseFromString wire (internalSerialize wire ⟨header, []⟩)).map toRpcHeader = _
    rw [parse_serialize lawful wellFormed]
    rfl
  shortest bytes parses := by
    obtain ⟨message, parsed, rfl⟩ := Option.map_eq_some_iff.mp parses
    have size := (parsed_of_parseFromString lawful parsed).size
    show (internalSerialize wire ⟨message.toRpcHeader, []⟩).length ≤ _
    rw [internalSerialize_length lawful wellFormed]
    unfold byteSizeLong at size ⊢
    simp only [List.map_nil, List.sum_nil, List.length_nil] at size ⊢
    omega

/-- The strings and the number of a request's header fit, where the request is short. -/
theorem header_wellFormed (wire : WireFormat Field) {request : RpcRequest}
    (service : request.serviceName.length < 2 ^ 31 - 16)
    (method : request.methodName.length < 2 ^ 31 - 16) :
    WellFormed wire ⟨request.header, []⟩ :=
  ⟨service, method, Nat.mod_lt _ (by norm_num), nofun⟩

/-- With the generated header, of all the bytes that can stand in front of `OnMessage` while a
request and more come in, exactly those with the whole request are dispatched to its method. -/
theorem dispatch_iff_whole (wire : WireFormat Field) (lawful : wire.Lawful)
    (provider : RpcProvider) (streams : RpcCodec) (isCodec : provider.codec = codec wire streams)
    (streamsLawful : streams.Lawful) (request : RpcRequest) (named : request.serviceName ≠ [])
    (registered : provider.Registered request)
    (accepted :
      provider.parseRequest request.serviceName request.methodName request.args = true)
    (service : request.serviceName.length < 2 ^ 31 - 16)
    (method : request.methodName.length < 2 ^ 31 - 16) (more part : List UInt8)
    (isPart : part <+: request.frame provider.codec ++ more)
    (short : (request.frame provider.codec ++ more).length < 2 ^ 31) :
    provider.dispatch part = .ok (some request) ↔ request.frame provider.codec <+: part := by
  have codecLawful : provider.codec.Lawful := isCodec ▸ codec_lawful wire streamsLawful
  have serializes : provider.codec.Serializes request.header :=
    isCodec ▸ codec_serializes lawful streams named (header_wellFormed wire service method)
  have within : request.frame provider.codec <+: request.frame provider.codec ++ more :=
    List.prefix_append _ _
  constructor
  · intro dispatched
    by_contra notWhole
    have shorter : part.length < (request.frame provider.codec).length := by
      by_contra long
      exact notWhole (List.prefix_of_prefix_length_le within isPart (Nat.le_of_not_lt long))
    exact RpcProvider.dispatch_part codecLawful serializes
      (List.prefix_of_prefix_length_le isPart within shorter.le) shorter
      (within.length_le.trans_lt short) dispatched
  · rintro ⟨behind, rfl⟩
    rw [RpcProvider.dispatch_frame codecLawful serializes (isPart.length_le.trans_lt short)]
    exact RpcProvider.callMethod_of_registered registered accepted

/-- A provider with the generated header. -/
def headerProvider : RpcProvider :=
  RpcProvider.notifyService ⟨codec plainWire (RpcProvider.codecOf []), OrderedMap.empty,
    fun _ _ _ => true⟩ (text "User") [text "Login"]

/-- The whole request with the first bytes of another one is dispatched, and the request without its
last byte is not. -/
theorem dispatch_iff_whole_login :
    headerProvider.dispatch (RpcProvider.loginRequest.frame headerProvider.codec ++ [9, 9]) =
        .ok (some RpcProvider.loginRequest) ∧
      headerProvider.dispatch (RpcProvider.loginRequest.frame headerProvider.codec).dropLast ≠
        .ok (some RpcProvider.loginRequest) := by
  have parts (part : List UInt8)
      (isPart : part <+: RpcProvider.loginRequest.frame headerProvider.codec ++ [9, 9]) :
      headerProvider.dispatch part = .ok (some RpcProvider.loginRequest) ↔
        RpcProvider.loginRequest.frame headerProvider.codec <+: part :=
    dispatch_iff_whole plainWire plainWire_lawful headerProvider (RpcProvider.codecOf []) rfl
      (RpcProvider.codecOf_lawful []) RpcProvider.loginRequest (by decide) (by decide +kernel) rfl
      (by decide) (by decide) [9, 9] part isPart (by decide +kernel)
  refine ⟨(parts _ List.prefix_rfl).mpr (List.prefix_append _ _), fun dispatched => ?_⟩
  have whole := (parts _ ((List.dropLast_prefix _).trans (List.prefix_append _ _))).mp dispatched
  have longer := whole.length_le
  have nonempty : 0 < (RpcProvider.loginRequest.frame headerProvider.codec).length := by
    decide +kernel
  rw [List.length_dropLast] at longer
  omega

end RpcHeaderMessage

end YYNet
