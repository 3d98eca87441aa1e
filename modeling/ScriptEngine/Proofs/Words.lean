import ScriptEngine.Word
import Mathlib.Logic.Basic

/-!
# Words and values

A word is taken apart by masks: the bits that every word has, the tag, and the payload. Reading a word
back gives the value it was made from, provided that what lives on the heap is found at its address.
Words that no value is made into are read too; what is read from them does not depend on the bits that
carry nothing.
-/

namespace ScriptEngine.Word

/-- A word with a tag and a payload. -/
def tagged (tag payload : UInt64) : UInt64 := base ||| tag ||| (payload &&& payloadMask)

theorem or_and (a b c : UInt64) : (a ||| b) &&& c = (a &&& c) ||| (b &&& c) :=
  UInt64.toBitVec_inj.mp BitVec.and_or_distrib_right

theorem tagged_and (tag payload mask : UInt64) :
    tagged tag payload &&& mask =
      (base &&& mask) ||| (tag &&& mask) ||| (payload &&& (payloadMask &&& mask)) := by
  rw [tagged, or_and, or_and, UInt64.and_assoc]

/-- The bits of a tag lie under the mask for tags. -/
def IsTag (tag : UInt64) : Prop := tag &&& tagMask = tag

theorem IsTag.and_eq_zero {tag mask : UInt64} (isTag : IsTag tag) (apart : tagMask &&& mask = 0) :
    tag &&& mask = 0 := by
  rw [← isTag, UInt64.and_assoc, apart, UInt64.and_zero]

section
variable {tag : UInt64} (isTag : IsTag tag) (payload : UInt64)
include isTag

theorem tagged_and_base : tagged tag payload &&& base = base := by
  have payloadless : payloadMask &&& base = 0 := rfl
  rw [tagged_and, isTag.and_eq_zero rfl, payloadless, UInt64.and_zero, UInt64.or_zero, UInt64.or_zero,
    UInt64.and_self]

theorem tagged_and_tagMask : tagged tag payload &&& tagMask = tag := by
  have tagless : base &&& tagMask = 0 := rfl
  have payloadless : payloadMask &&& tagMask = 0 := rfl
  rw [tagged_and, tagless, payloadless, isTag, UInt64.and_zero, UInt64.or_zero, UInt64.zero_or]

theorem tagged_and_payloadMask : tagged tag payload &&& payloadMask = payload &&& payloadMask := by
  have payloadless : base &&& payloadMask = 0 := rfl
  rw [tagged_and, payloadless, isTag.and_eq_zero rfl, UInt64.and_self, UInt64.or_zero, UInt64.zero_or]

end

/-- An address of 48 bits fits in the payload. -/
theorem and_payloadMask {address : UInt64} (fits : address < 0x1000000000000) :
    address &&& payloadMask = address := by
  apply UInt64.toNat_inj.mp
  have below : address.toNat < 281474976710656 := UInt64.lt_iff_toNat_lt.mp fits
  have mask : payloadMask.toNat = 281474976710656 - 1 := rfl
  have kept : address.toNat % 281474976710656 = address.toNat := Nat.mod_eq_of_lt below
  rw [UInt64.toNat_and, mask]
  exact (Nat.and_two_pow_sub_one_eq_mod address.toNat 48).trans kept

/-- The tag of a kind of value. -/
def tagOf : Value → UInt64
  | .undefined => undefinedTag
  | .null => nullTag
  | .bool _ => boolTag
  | .int _ => intTag
  | .text _ => textTag
  | .object _ => objectTag

/-- The payload of a value; `address` is where it is allocated, if it lives on the heap. -/
def payloadOf (address : UInt64) : Value → UInt64
  | .undefined | .null | .bool false => 0
  | .bool true => 1
  | .int n => n.toInt64.toUInt64
  | .text _ | .object _ => address

theorem isTag_tagOf (v : Value) : IsTag (tagOf v) := by
  cases v <;> simp only [IsTag, tagOf] <;> decide

theorem tagOf_ne_failureTag (v : Value) : tagOf v ≠ failureTag := by
  cases v <;> simp only [tagOf] <;> decide

theorem encode_eq (address : UInt64) (v : Value) :
    encode address v = tagged (tagOf v) (payloadOf address v) := by
  cases v with
  | undefined => exact (by decide : undefined = tagged undefinedTag 0)
  | null => exact (by decide : null = tagged nullTag 0)
  | bool b =>
    cases b with
    | false => exact (by decide : falseWord = tagged boolTag 0)
    | true => exact (by decide : trueWord = tagged boolTag 1)
  | int | text | object => rfl

theorem encode_and_tagMask (address : UInt64) (v : Value) : encode address v &&& tagMask = tagOf v := by
  rw [encode_eq, tagged_and_tagMask (isTag_tagOf v)]

theorem encode_ne_failure (address : UInt64) (v : Value) : encode address v ≠ failure := by
  intro same
  have kind := encode_and_tagMask address v
  rw [same] at kind
  exact tagOf_ne_failureTag v kind.symm

section
variable {w : UInt64} (boxed : w &&& base = base) (memory : Memory)
include boxed

theorem decode_object (kind : w &&& tagMask = objectTag) :
    decode memory w = .object (memory.object (w &&& payloadMask)) := by
  simp [decode, boxed, kind]

theorem decode_int (kind : w &&& tagMask = intTag) : decode memory w = .int w.toUInt32.toInt32 := by
  simp [decode, boxed, kind, objectTag, intTag]

theorem decode_bool (kind : w &&& tagMask = boolTag) : decode memory w = .bool (w &&& 1 ≠ 0) := by
  simp [decode, boxed, kind, objectTag, intTag, boolTag]

theorem decode_text (kind : w &&& tagMask = textTag) :
    decode memory w = .text (memory.text (w &&& payloadMask)) := by
  simp [decode, boxed, kind, objectTag, intTag, boolTag, textTag]

/-- All other kinds carry nothing. -/
theorem decode_other (noObject : w &&& tagMask ≠ objectTag) (noInt : w &&& tagMask ≠ intTag)
    (noBool : w &&& tagMask ≠ boolTag) (noText : w &&& tagMask ≠ textTag) :
    decode memory w = if w = null then .null else .undefined := by
  simp [decode, boxed, noObject, noInt, noBool, noText]

end

/-- What the memory holds at the address is the value, if the value lives on the heap. Different
allocations have different addresses, since an address holds one text and one object at most. -/
def Memory.Holds (memory : Memory) (address : UInt64) : Value → Prop
  | .text s => address < 0x1000000000000 ∧ memory.text address = s
  | .object id => address < 0x1000000000000 ∧ memory.object address = id
  | _ => True

theorem Memory.holds_of_immediate {v : Value} (immediate : v.isHeap = false) (memory : Memory)
    (address : UInt64) : memory.Holds address v := by
  cases v with
  | text | object => cases immediate
  | _ => trivial

/-- The low half of an integer word is the integer, whatever its sign has spilled into the high half. -/
theorem toInt32_ofInt (n : Int32) : (ofInt n).toUInt32.toInt32 = n := by
  have half : (ofInt n).toUInt32 = n.toInt64.toUInt64.toUInt32 := by
    have high : (base ||| intTag).toUInt32 = 0 := rfl
    have low : payloadMask.toUInt32 = -1 := rfl
    rw [ofInt, UInt64.toUInt32_or, high, UInt64.toUInt32_and, low, UInt32.and_neg_one, UInt32.zero_or]
  have narrowed : n.toInt64.toUInt64.toUInt32.toInt32 = n.toInt64.toInt32 := by
    apply Int32.toBitVec_inj.mp
    exact (BitVec.signExtend_eq_setWidth_of_le n.toInt64.toBitVec (by decide : 32 ≤ 64)).symm
  rw [half, narrowed, Int32.toInt32_toInt64]

theorem decode_encode {memory : Memory} {address : UInt64} {v : Value}
    (holds : memory.Holds address v) : decode memory (encode address v) = v := by
  have boxed := tagged_and_base (isTag_tagOf v) (payloadOf address v)
  have payload := tagged_and_payloadMask (isTag_tagOf v) (payloadOf address v)
  have kind := encode_and_tagMask address v
  rw [← encode_eq] at boxed payload
  cases v with
  | undefined =>
    have apart : encode address .undefined ≠ null := (by decide : undefined ≠ null)
    rw [decode_other boxed memory, if_neg apart] <;> rw [kind] <;> exact (by decide)
  | null =>
    have exactly : encode address .null = null := rfl
    rw [decode_other boxed memory, if_pos exactly] <;> rw [kind] <;> exact (by decide)
  | bool b =>
    rw [decode_bool boxed memory kind]
    cases b with
    | false => exact (by decide : Value.bool (falseWord &&& 1 ≠ 0) = .bool false)
    | true => exact (by decide : Value.bool (trueWord &&& 1 ≠ 0) = .bool true)
  | int n =>
    rw [decode_int boxed memory kind]
    exact congrArg Value.int (toInt32_ofInt n)
  | text s =>
    rw [decode_text boxed memory kind, payload]
    exact congrArg Value.text ((congrArg memory.text (and_payloadMask holds.1)).trans holds.2)
  | object id =>
    rw [decode_object boxed memory kind, payload]
    exact congrArg Value.object ((congrArg memory.object (and_payloadMask holds.1)).trans holds.2)

/-- Equal words are words of equal values. -/
theorem eq_of_encode_eq {memory : Memory} {address address' : UInt64} {v v' : Value}
    (holds : memory.Holds address v) (holds' : memory.Holds address' v')
    (same : encode address v = encode address' v') : v = v' := by
  rw [← decode_encode holds, same, decode_encode holds']

theorem truth_of_kind {w : UInt64} (noNull : w &&& tagMask ≠ nullTag)
    (noUndefined : w &&& tagMask ≠ undefinedTag) (noBool : w &&& tagMask ≠ boolTag) :
    truth w = true := by
  have apart : ∀ c : UInt64, w &&& tagMask ≠ c &&& tagMask → w ≠ c := by
    rintro c kinds rfl
    exact kinds rfl
  simp [truth, apart null noNull, apart undefined noUndefined, apart falseWord noBool]

theorem truth_encode (address : UInt64) (v : Value) : truth (encode address v) = v.truth := by
  have kind := encode_and_tagMask address v
  cases v with
  | undefined => exact (by decide : truth undefined = false)
  | null => exact (by decide : truth null = false)
  | bool b =>
    cases b with
    | false => exact (by decide : truth falseWord = false)
    | true => exact (by decide : truth trueWord = true)
  | int | text | object =>
    simp only [tagOf] at kind
    refine truth_of_kind ?_ ?_ ?_ <;> rw [kind] <;> decide

theorem truthFlag_eq (w : UInt64) : truthFlag w = if truth w then 1 else 0 := by
  by_cases isNull : w = null
  · subst w
    decide
  · by_cases isUndefined : w = undefined
    · subst w
      decide
    · by_cases isFalse : w = falseWord
      · subst w
        decide
      · simp [truthFlag, equalFlag, truth, isNull, isUndefined, isFalse]

/-- The word carries no address. -/
def IsPlain (w : UInt64) : Prop :=
  w &&& base = base ∧ w &&& tagMask ≠ objectTag ∧ w &&& tagMask ≠ textTag

theorem IsPlain.decode_immediate {w : UInt64} (plain : IsPlain w) (memory : Memory) :
    (decode memory w).isHeap = false := by
  obtain ⟨boxed, noObject, noText⟩ := plain
  by_cases isInt : w &&& tagMask = intTag
  · rw [decode_int boxed memory isInt]
    rfl
  · by_cases isBool : w &&& tagMask = boolTag
    · rw [decode_bool boxed memory isBool]
      rfl
    · rw [decode_other boxed memory noObject isInt isBool noText]
      split <;> rfl

theorem toUInt32_eq_iff (w w' : UInt64) :
    w.toUInt32 = w'.toUInt32 ↔ w &&& 0xFFFFFFFF = w' &&& 0xFFFFFFFF := by
  have low : ∀ w : UInt64, (w &&& 0xFFFFFFFF).toNat = w.toUInt32.toNat := by
    intro w
    rw [UInt64.toNat_and, UInt64.toNat_toUInt32]
    exact Nat.and_two_pow_sub_one_eq_mod w.toNat 32
  rw [← UInt32.toNat_inj, ← UInt64.toNat_inj, low, low]

end Word

open Word in
/-- A value is read back from its word, no word of a value is the failure word, and equal words are words of
equal values. Of two integer words the same is read exactly if their low 32 bits agree, whatever bits
carry nothing. -/
theorem words_stand_for_values (memory : Memory) :
    (∀ address v, memory.Holds address v → decode memory (encode address v) = v) ∧
    (∀ address v, encode address v ≠ failure) ∧
    (∀ address address' v v', memory.Holds address v → memory.Holds address' v' →
      encode address v = encode address' v' → v = v') ∧
    (∀ address v, truthFlag (encode address v) = if v.truth then 1 else 0) ∧
    (∀ address n, constant n = encode address (.int n)) ∧
    (∀ w, IsPlain w → ∀ address,
      decode memory (encode address (decode memory w)) = decode memory w) ∧
    ∀ w w', w &&& base = base → w' &&& base = base → w &&& tagMask = intTag →
      w' &&& tagMask = intTag →
      (decode memory w = decode memory w' ↔ w &&& 0xFFFFFFFF = w' &&& 0xFFFFFFFF) := by
  refine ⟨fun _ _ => decode_encode, encode_ne_failure, fun _ _ _ _ => eq_of_encode_eq, ?_,
    fun _ _ => rfl, ?_, ?_⟩
  · intro address v
    rw [truthFlag_eq, truth_encode]
  · intro w plain address
    exact decode_encode (Memory.holds_of_immediate (plain.decode_immediate memory) memory address)
  · intro w w' boxed boxed' kind kind'
    rw [decode_int boxed memory kind, decode_int boxed' memory kind', ← toUInt32_eq_iff]
    constructor
    · intro same
      exact congrArg Int32.toUInt32 (Value.int.inj same)
    · intro same
      rw [same]

/-- A memory with one object and one text. -/
def smallMemory : Word.Memory where
  object := fun _ => 3
  text := fun _ => "a"

open Word in
/-- An object at the last address of 48 bits, a text at the first one, and an integer word with bits set
that carry nothing. -/
theorem words_stand_for_values_at_ends :
    smallMemory.Holds 0xFFFFFFFFFFFF (.object 3) ∧
      decode smallMemory (encode 0xFFFFFFFFFFFF (.object 3)) = .object 3 ∧
      smallMemory.Holds 0 (.text "a") ∧ decode smallMemory (encode 0 (.text "a")) = .text "a" ∧
      IsPlain 0xFFF912340000000F ∧
      decode smallMemory (encode 0 (decode smallMemory 0xFFF912340000000F)) =
        decode smallMemory 0xFFF912340000000F ∧
      decode smallMemory 0xFFF912340000000F = decode smallMemory 0xFFF900000000000F := by
  obtain ⟨back, -, -, -, -, again, low⟩ := words_stand_for_values smallMemory
  have object : smallMemory.Holds 0xFFFFFFFFFFFF (.object 3) := ⟨by decide, rfl⟩
  have text : smallMemory.Holds 0 (.text "a") := ⟨by decide, rfl⟩
  have plain : IsPlain 0xFFF912340000000F := ⟨by decide, by decide, by decide⟩
  refine ⟨object, back _ _ object, text, back _ _ text, plain, again _ plain 0, ?_⟩
  exact (low _ _ (by decide) (by decide) (by decide) (by decide)).mpr (by decide)

end ScriptEngine
