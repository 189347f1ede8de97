import PGLogical.Wire.HeapTuple
import Mathlib.Logic.Function.Basic

/-! # Hash tables with string keys

Unless dynahash is given a hash function or HASH_BLOBS, it takes keys to be C strings: they are hashed, compared
and copied up to their first zero, and at most up to one byte less than the key has. A number that is used as
a key is such a string too, of its bytes as they are in memory. Numbers with the same string share an entry.
-/

namespace Wire

/-- The string that a four-byte number is as a key. -/
def stringKey (bigendian : Bool) (word : UInt32) : CString :=
  .ofBytes (((if bigendian then bigEndian else littleEndian) 4 word.toNat).take 3)

structure StringHash (α : Type) where
  bigendian : Bool
  entries : CString → Option α

namespace StringHash

variable {α : Type} (hash : StringHash α)

def key (word : UInt32) : CString := stringKey hash.bigendian word

/-- `hash_create` -/
def create (bigendian : Bool) : StringHash α := ⟨bigendian, fun _ => none⟩

/-- HASH_FIND -/
def find (word : UInt32) : Option α := hash.entries (hash.key word)

/-- HASH_ENTER, and what is then written to the entry. -/
def enter (word : UInt32) (entry : α) : StringHash α :=
  { hash with entries := Function.update hash.entries (hash.key word) (some entry) }

/-- A loop of `hash_seq_search` that writes to the entries. -/
def map (write : α → α) : StringHash α := { hash with entries := fun key => (hash.entries key).map write }

instance : CoeFun (StringHash α) fun _ => UInt32 → Option α := ⟨find⟩

@[simp] theorem map_key (write : α → α) : (hash.map write).key = hash.key := rfl

@[simp] theorem map_find (write : α → α) (word : UInt32) : hash.map write word = (hash word).map write := rfl

@[simp] theorem enter_key (word : UInt32) (entry : α) : (hash.enter word entry).key = hash.key := rfl

theorem find_congr {word other : UInt32} (same : hash.key other = hash.key word) : hash other = hash word :=
  congrArg hash.entries same

theorem enter_congr {word other : UInt32} (same : hash.key other = hash.key word) (entry : α) :
    hash.enter other entry = hash.enter word entry := by
  rw [enter, same, enter]

/-- The entry is found by every number with the key. -/
theorem enter_same {word other : UInt32} (same : hash.key other = hash.key word) (entry : α) :
    hash.enter word entry other = some entry := by
  rw [find, enter_key, same]
  exact Function.update_self ..

@[simp] theorem enter_self (word : UInt32) (entry : α) : hash.enter word entry word = some entry :=
  hash.enter_same rfl entry

theorem enter_of_ne {word other : UInt32} (apart : hash.key other ≠ hash.key word) (entry : α) :
    hash.enter word entry other = hash other :=
  Function.update_of_ne apart ..

end StringHash

end Wire
