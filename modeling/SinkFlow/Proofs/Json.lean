import SinkFlow.Program.Document

/-!
Reading undoes writing for the parts of JSON values that documents are made of: numbers, lists, records and tagged
records. What is written can be taken in as a whole, as a tagged record has to be.
-/

namespace SinkFlow.Json

variable {α β : Type}

/-! ## Numbers, texts and lists -/

theorem asNatBelow_nat {n bound : Nat} (h : n < bound) : (nat n).asNatBelow bound = some n := by
  simp [nat, asNatBelow, h]

@[simp] theorem asUInt32_idToJson (n : UInt32) : (idToJson n).asUInt32 = some n := by
  simp [asUInt32, idToJson, asNatBelow_nat n.toNat_lt_size]

@[simp] theorem asUInt64_nat (n : UInt64) : (nat n.toNat).asUInt64 = some n := by
  simp [asUInt64, asNatBelow_nat n.toNat_lt_size]

@[simp] theorem asInt64_int (v : Int64) : (int v.toInt).asInt64 = some v := by
  have hmin : Int64.minValue.toInt ≤ v.toInt := Int64.le_iff_toInt_le.mp (Int64.minValue_le v)
  have hmax : v.toInt ≤ Int64.maxValue.toInt := Int64.le_iff_toInt_le.mp (Int64.le_maxValue v)
  simp only [asInt64, hmin, hmax, and_self, ↓reduceIte, Int64.ofInt_toInt]

@[simp] theorem asString_str (s : String) : (str s).asString = some s := rfl

@[simp] theorem asBool_bool (b : Bool) : (Json.bool b).asBool = some b := rfl

@[simp] theorem asChar_singleton (c : Char) : (str (String.singleton c)).asChar = some c := by
  simp [asChar]

@[simp] theorem orNull_idOrNull (n : Option UInt32) : orNull asUInt32 (idOrNull n) = some n := by
  cases n with
  | none => rfl
  | some n => simpa [idOrNull, orNull, idToJson, nat] using asUInt32_idToJson n

/-- A list is read back if its items are. -/
theorem asList_map {read : Json → Option α} {write : α → Json} (h : ∀ a, read (write a) = some a) (as : List α) :
    asList read (arr (as.map write)) = some as := by
  simp only [asList]
  induction as with
  | nil => rfl
  | cons a as ih => simp [List.mapM_cons, h, ih]

theorem asPair_arr {first : Json → Option α} {second : Json → Option β} {j k : Json} {a : α} {b : β}
    (ha : first j = some a) (hb : second k = some b) : asPair first second (arr [j, k]) = some (a, b) := by
  simp [asPair, ha, hb]

/-! ## What can be taken in -/

@[simp] theorem isReadable_null : null.isReadable = true := by simp [isReadable]

@[simp] theorem isReadable_bool (b : Bool) : (Json.bool b).isReadable = true := by simp [isReadable]

@[simp] theorem isReadable_nat (n : Nat) : (nat n).isReadable = true := by simp [nat, isReadable]

@[simp] theorem isReadable_str (s : String) : (str s).isReadable = true := by simp [isReadable]

@[simp] theorem isReadable_arr (items : List Json) : (arr items).isReadable = allReadable items := by
  simp [isReadable]

@[simp] theorem isReadable_obj (members : List (String × Json)) :
    (obj members).isReadable = membersReadable members := by simp [isReadable]

@[simp] theorem membersReadable_nil : membersReadable [] = true := by simp [membersReadable]

@[simp] theorem membersReadable_cons (name : String) (value : Json) (rest : List (String × Json)) :
    membersReadable ((name, value) :: rest) = (value.isReadable && membersReadable rest) := by simp [membersReadable]

@[simp] theorem isReadable_idToJson (n : UInt32) : (idToJson n).isReadable = true := by simp [idToJson]

@[simp] theorem isReadable_idOrNull (n : Option UInt32) : (idOrNull n).isReadable = true := by
  cases n <;> simp [idOrNull]

theorem allReadable_map {write : α → Json} (h : ∀ a, (write a).isReadable = true) (as : List α) :
    allReadable (as.map write) = true := by
  induction as with
  | nil => simp [allReadable]
  | cons a as ih => simp [allReadable, h, ih]

/-! ## Records -/

/-- An object whose members are known and different is a record of them. -/
theorem record_obj {names : List String} {members : List (String × Json)} (required : Nat)
    (hnames : ∀ m ∈ members, m.1 ∈ names) (hnodup : (members.map Prod.fst).Nodup) :
    (obj members).record names required = some members := by
  have hknown : members.filter (fun m => m.1 ∈ names) = members :=
    List.filter_eq_self.mpr fun m hm => decide_eq_true (hnames m hm)
  simp only [record, hknown, hnodup, ↓reduceIte]

/-- An object that starts with its tag is a tagged record of its other members. -/
theorem tagged_obj {key tag : String} {tags : List String} {members : List (String × Json)} (byPosition : Bool)
    (htag : tag ∈ tags) (hkey : key ∉ members.map Prod.fst) (hreadable : membersReadable members) :
    (obj ((key, str tag) :: members)).tagged key tags byPosition = some (tag, obj members) := by
  have hother : ∀ m ∈ members, m.1 ≠ key := fun m hm he => hkey (he ▸ List.mem_map_of_mem hm)
  have hkeys : members.filter (·.1 = key) = [] := List.filter_eq_nil_iff.mpr fun m hm => by simpa using hother m hm
  have hrest : members.filter (·.1 ≠ key) = members :=
    List.filter_eq_self.mpr fun m hm => decide_eq_true (hother m hm)
  have hread : (obj ((key, str tag) :: members)).isReadable := by simpa using hreadable
  have hhead : ((key, str tag) :: members).filter (·.1 = key) = [(key, str tag)] := by simp [hkeys]
  have htail : ((key, str tag) :: members).filter (·.1 ≠ key) = members := by
    rw [List.filter_cons_of_neg (by simp), hrest]
  simp only [tagged, hread, ↓reduceIte, hhead, htail, asTag, htag]
  rfl

end SinkFlow.Json
