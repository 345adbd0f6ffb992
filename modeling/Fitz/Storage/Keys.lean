import Fitz.Lib.Framing
import Fitz.Runtime.Registration

/-!
# Storage keys

Model of `utils/storage_key.rs`. A key is the realm, the code of the domain and what the domain puts behind them,
with a separator after the realm and after the code. The bytes are those of the `lexkey` crate, which is a
parameter: what the keys rely on is stated as its laws.
-/

namespace Fitz.Storage

open Fitz.Lib Fitz.Runtime List

/-- What the keys take from the `lexkey` crate, and the laws they rely on: strings and byte strings are encoded as
they are, numbers in eight bytes with the most significant one first, the separator is the zero byte, and the
successor of a prefix bounds the range of the keys that start with it. -/
class LexKey where
  /-- `LexKey::SEPARATOR`. -/
  separator : UInt8
  /-- `Encoder::encode_string_into`. -/
  encodeString : Text → List UInt8
  /-- `Encoder::encode_bytes_into`. -/
  encodeBytes : List UInt8 → List UInt8
  /-- `Encoder::encode_u64_into`. -/
  encodeU64 : ℕ → List UInt8
  /-- `LexKey::prefix_successor`. -/
  prefixSuccessor : List UInt8 → Option (List UInt8)
  /-- `LexKey::encode_range_upper` without a suffix. -/
  encodeRangeUpper : List UInt8 → List UInt8
  separator_eq : separator = 0
  encodeString_eq : ∀ text, encodeString text = textBytes text
  encodeBytes_eq : ∀ bytes, encodeBytes bytes = bytes
  encodeU64_eq : ∀ n, encodeU64 n = putUint 8 n
  largest_of_prefixSuccessor : ∀ {start}, prefixSuccessor start = none → ∀ byte ∈ start, byte = 255
  mem_range_iff : ∀ {start after key}, prefixSuccessor start = some after →
    ((¬key < start ∧ key < after) ↔ start <+: key)

open LexKey

attribute [simp] encodeString_eq encodeBytes_eq encodeU64_eq

/-- A `lexkey` that keeps its laws. -/
@[reducible] def rawLexKey : LexKey where
  separator := 0
  encodeString := textBytes
  encodeBytes := id
  encodeU64 := putUint 8
  prefixSuccessor := successorOf
  encodeRangeUpper start := start ++ [255]
  separator_eq := rfl
  encodeString_eq _ := rfl
  encodeBytes_eq _ := rfl
  encodeU64_eq _ := rfl
  largest_of_prefixSuccessor := successorOf_eq_none_iff.mp
  mem_range_iff := mem_range_successor_iff

/-- `DomainKeyspace`. -/
inductive DomainKeyspace where
  | kv
  | lease
  | notice
  | queue
  | rpc
  | schedule
  | stream
  deriving DecidableEq

/-- `DomainKeyspace::code`. -/
def DomainKeyspace.code : DomainKeyspace → List UInt8
  | .kv => [0x6b, 0x76]
  | .lease => [0x6c, 0x73]
  | .notice => [0x6e, 0x74]
  | .queue => [0x71, 0x75]
  | .rpc => [0x72, 0x70]
  | .schedule => [0x73, 0x63]
  | .stream => [0x73, 0x74]

/-- Domains have different codes. -/
theorem DomainKeyspace.code_injective : Function.Injective DomainKeyspace.code := by
  intro a b h
  cases a <;> cases b <;> first | rfl | cases h

/-- Every code is two bytes long. -/
@[simp]
theorem DomainKeyspace.length_code (domain : DomainKeyspace) : domain.code.length = 2 := by
  cases domain <;> rfl

/-- A segment that a route may have: it is not empty and has no control character. -/
structure IsPlainSegment (text : Text) : Prop where
  nonempty : text ≠ []
  plain : containsControlCharacter text = false

/-- A plain segment is not empty. -/
theorem textBytes_isEmpty {text : Text} (h : IsPlainSegment text) : (textBytes text).isEmpty = false := by
  rw [isEmpty_eq_false_iff]
  intro hempty
  exact h.nonempty (textBytes_injective (hempty.trans (by rfl : ([] : List UInt8) = textBytes [])))

variable [LexKey]

/-- `push_segment`. -/
def pushSegment (text : Text) : List UInt8 := textBytes text ++ [separator]

/-- `encode_segment_into`. -/
def encodeSegment (text : Text) : List UInt8 := encodeString text ++ [separator]

/-- `encode_bytes_segment_into`, of the bytes of a text. -/
def encodeBytesSegment (text : Text) : List UInt8 := encodeBytes (textBytes text) ++ [separator]

/-- `domain_prefix`. -/
def domainPrefix (realm : Text) (domain : DomainKeyspace) : List UInt8 :=
  encodeString realm ++ [separator] ++ encodeBytes domain.code ++ [separator]

/-- `domain_marker_encoder`: the prefix of one kind of rows. -/
def domainMarkerKey (realm : Text) (domain : DomainKeyspace) (marker : UInt8) : List UInt8 :=
  domainPrefix realm domain ++ [marker]

/-- `prefixed_key`. -/
def prefixedKey (realm : Text) (domain : DomainKeyspace) (suffix : List UInt8) : List UInt8 :=
  domainPrefix realm domain ++ suffix

/-- `prefix_range_end`. -/
def prefixRangeEnd (start : List UInt8) : List UInt8 := (prefixSuccessor start).getD (encodeRangeUpper start)

/-- `strip_domain_prefix`. -/
def stripDomainPrefix (key : List UInt8) (domain : DomainKeyspace) : Option (List UInt8) :=
  match splitFirst separator key with
  | none => none
  | some (_, rest) =>
    if rest.length ≤ 2 || rest[2]? != some separator then none
    else if rest.take 2 ≠ domain.code then none
    else some (rest.drop 3)

/-- `split_domain_key`. -/
def splitDomainKey (key : List UInt8) (domain : DomainKeyspace) : Option (Text × List UInt8) :=
  match splitFirst separator key with
  | none => none
  | some (realm, _) =>
    match decodeUtf8 realm with
    | none => none
    | some realm => (stripDomainPrefix key domain).map fun suffix => (realm, suffix)

section Segments

variable {text text' realm realm' : Text} {domain domain' : DomainKeyspace} {rest rest' : List UInt8}

/-- No segment without control characters has the separator in it. -/
theorem separator_notMem (h : containsControlCharacter text = false) : separator ∉ textBytes text := by
  rw [separator_eq]
  refine zero_notMem_textBytes fun c hc hzero => ?_
  have hcontrol : isControl c = false := by
    have hall := any_eq_false.mp h c hc
    simpa using hall
  rw [hzero] at hcontrol
  exact absurd hcontrol (by decide)

/-- A segment is pushed as it is encoded. -/
@[simp]
theorem pushSegment_eq (text : Text) : pushSegment text = encodeSegment text := by
  simp [pushSegment, encodeSegment]

/-- The bytes of a text are encoded as the text is. -/
@[simp]
theorem encodeBytesSegment_eq (text : Text) : encodeBytesSegment text = encodeSegment text := by
  simp [encodeBytesSegment, encodeSegment]

/-- A domain's prefix is the realm's segment, the code and a separator. -/
theorem domainPrefix_eq (realm : Text) (domain : DomainKeyspace) :
    domainPrefix realm domain = encodeSegment realm ++ domain.code ++ [separator] := by
  simp [domainPrefix, encodeSegment]

/-- A segment is the text's bytes and a separator. -/
theorem segment_append (text : Text) (rest : List UInt8) :
    encodeSegment text ++ rest = textBytes text ++ separator :: rest := by
  simp [encodeSegment]

/-- Segments without control characters are compared as texts. -/
theorem segment_prefix (h : containsControlCharacter text = false) (h' : containsControlCharacter text' = false) :
    encodeSegment text ++ rest <+: encodeSegment text' ++ rest' ↔ text = text' ∧ rest <+: rest' := by
  rw [segment_append, segment_append, segment_prefix_iff (separator_notMem h) (separator_notMem h'),
    textBytes_injective.eq_iff]

/-- Several segments. -/
def segments (texts : List Text) : List UInt8 := texts.flatMap encodeSegment

/-- Equally many segments are compared text by text. -/
theorem segments_isPrefix {texts texts' : List Text} (hlength : texts.length = texts'.length)
    (h : ∀ text ∈ texts, containsControlCharacter text = false)
    (h' : ∀ text ∈ texts', containsControlCharacter text = false) :
    segments texts ++ rest <+: segments texts' ++ rest' ↔ texts = texts' ∧ rest <+: rest' := by
  induction texts generalizing texts' with
  | nil =>
    obtain rfl := length_eq_zero_iff.mp hlength.symm
    simp [segments]
  | cons text texts ih =>
    cases texts' with
    | nil => cases hlength
    | cons text' texts' =>
      obtain ⟨htext, htexts⟩ := forall_mem_cons.mp h
      obtain ⟨htext', htexts'⟩ := forall_mem_cons.mp h'
      unfold segments at ih ⊢
      rw [flatMap_cons, flatMap_cons, append_assoc, append_assoc,
        segment_prefix htext htext', ih (Nat.succ.inj hlength) htexts htexts', cons.injEq, and_assoc]

/-- Prefixes of domains are compared by realm and domain. -/
theorem domainPrefix_prefix (h : containsControlCharacter realm = false)
    (h' : containsControlCharacter realm' = false) :
    domainPrefix realm domain ++ rest <+: domainPrefix realm' domain' ++ rest' ↔
      realm = realm' ∧ domain = domain' ∧ rest <+: rest' := by
  rw [domainPrefix_eq, domainPrefix_eq, append_assoc, append_assoc, append_assoc, append_assoc, segment_prefix h h',
    block_prefix_iff (by simp), DomainKeyspace.code_injective.eq_iff]
  simp

/-- The prefix of a domain is stripped again. -/
theorem stripDomainPrefix_domainPrefix (h : containsControlCharacter realm = false) (rest : List UInt8) :
    stripDomainPrefix (domainPrefix realm domain ++ rest) domain = some rest := by
  unfold stripDomainPrefix
  rw [domainPrefix_eq, append_assoc, append_assoc, segment_append, splitFirst_append (separator_notMem h)]
  cases domain <;> simp [DomainKeyspace.code]

/-- A key of a domain is split into its realm and the rest. -/
theorem splitDomainKey_domainPrefix (h : containsControlCharacter realm = false) (rest : List UInt8) :
    splitDomainKey (domainPrefix realm domain ++ rest) domain = some (realm, rest) := by
  unfold splitDomainKey
  rw [stripDomainPrefix_domainPrefix h]
  rw [domainPrefix_eq, append_assoc, append_assoc, segment_append, splitFirst_append (separator_notMem h)]
  dsimp only
  rw [decodeUtf8_textBytes]
  rfl

end Segments

/-- The range of a prefix with a separator holds the keys that start with it. -/
theorem mem_prefixRange_iff {start key : List UInt8} (h : separator ∈ start) :
    (¬key < start ∧ key < prefixRangeEnd start) ↔ start <+: key := by
  unfold prefixRangeEnd
  cases hafter : prefixSuccessor start with
  | none =>
    have hlargest := largest_of_prefixSuccessor hafter _ h
    rw [separator_eq] at hlargest
    exact absurd hlargest (by decide)
  | some after => exact mem_range_iff hafter

end Fitz.Storage
