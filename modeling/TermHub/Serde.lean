/-
**Documents and how records are read from them.**

A document is a tree of scalars, arrays and objects.  A record is written as an object with its
fields in order.  It is read from an object whose fields may stand in any order, next to unknown
ones that are ignored, or from an array of its fields in order; a field that is missing may have a
default.  A variant with named fields is written as an object with its name under a tag.

Main definitions:

* `Value` — documents;
* `Value.members`, `Members.required`, `Members.withDefault`, `Members.optional` — the fields of a
  record;
* `Value.tagged` — the name of a variant, and the rest of its object;
* `Value.sorted` — the document with the fields of its objects in order.

Main results:

* `members_perm` — **the fields of a record are read in whatever order they stand**, and next to
  whatever else there is;
* `members_omit` — **the fields that are left out are the only ones that are missing**;
* `tagged_perm` — the tag may stand anywhere.
-/

import Mathlib.Data.List.Perm.Basic
import Mathlib.Data.List.Nodup
import Mathlib.Data.Int.Notation
import Mathlib.Data.Nat.Notation

set_option relaxedAutoImplicit false
set_option autoImplicit false

namespace Serde

/-! ### Documents -/

/-- A document.  A number that is no integer is kept as it is written. -/
inductive Value
  | null
  | bool (b : Bool)
  | int (n : ℤ)
  | float (text : String)
  | str (s : String)
  | arr (vs : List Value)
  | obj (fs : List (String × Value))

namespace Value

variable {α β : Type*}

/-- A string. -/
def asStr : Value → Option String
  | .str s => some s
  | _ => none

/-- A truth value. -/
def asBool : Value → Option Bool
  | .bool b => some b
  | _ => none

/-- A natural number below a bound. -/
def asNat (bound : ℕ) : Value → Option ℕ
  | .int n => if 0 ≤ n ∧ n.toNat < bound then some n.toNat else none
  | _ => none

/-- The unsigned numbers of eight bits. -/
def asU8 (v : Value) : Option UInt8 := (v.asNat UInt8.size).map UInt8.ofNat

/-- The unsigned numbers of sixteen bits. -/
def asU16 (v : Value) : Option UInt16 := (v.asNat UInt16.size).map UInt16.ofNat

/-- The unsigned numbers of thirty-two bits. -/
def asU32 (v : Value) : Option UInt32 := (v.asNat UInt32.size).map UInt32.ofNat

/-- `null`, or a value. -/
def asOption (f : Value → Option α) : Value → Option (Option α)
  | .null => some none
  | v => (f v).map some

/-- An array. -/
def asList (f : Value → Option α) : Value → Option (List α)
  | .arr vs => vs.mapM f
  | _ => none

@[simp] theorem asStr_str (s : String) : asStr (.str s) = some s := rfl

@[simp] theorem asBool_bool (b : Bool) : asBool (.bool b) = some b := rfl

theorem asNat_int {bound n : ℕ} (h : n < bound) : asNat bound (.int n) = some n := by
  rw [asNat, if_pos ⟨Int.natCast_nonneg n, h⟩]
  rfl

@[simp] theorem asU8_int (n : UInt8) : asU8 (.int n.toNat) = some n := by
  rw [asU8, asNat_int n.toNat_lt, Option.map_some, UInt8.ofNat_toNat]

@[simp] theorem asU16_int (n : UInt16) : asU16 (.int n.toNat) = some n := by
  rw [asU16, asNat_int n.toNat_lt, Option.map_some, UInt16.ofNat_toNat]

@[simp] theorem asU32_int (n : UInt32) : asU32 (.int n.toNat) = some n := by
  rw [asU32, asNat_int n.toNat_lt, Option.map_some, UInt32.ofNat_toNat]

/-- A list is read when its elements are. -/
theorem mapM_map_eq {γ : Type*} {f : Value → Option γ} {g : α → Value} {k : α → γ} {l : List α}
    (h : ∀ x ∈ l, f (g x) = some (k x)) : (l.map g).mapM f = some (l.map k) := by
  induction l with
  | nil => rfl
  | cons x l ih =>
      rw [List.map_cons, List.mapM_cons, h x (List.mem_cons_self ..),
        ih fun y hy => h y (List.mem_cons_of_mem _ hy)]
      rfl

/-- A list is read back when its elements are. -/
theorem mapM_map_some {f : Value → Option α} {g : α → Value} {l : List α}
    (h : ∀ x ∈ l, f (g x) = some x) : (l.map g).mapM f = some l := by
  have hid := mapM_map_eq (k := id) h
  rwa [List.map_id] at hid

end Value

/-! ### Fields -/

/-- The fields of the object that have one of these names. -/
def known (names : List String) (fs : List (String × Value)) : List (String × Value) :=
  fs.filter fun kv => decide (kv.1 ∈ names)

/-- The fields of a record as they are found; by their names, or by their places. -/
structure Members where
  named : Bool
  get : String → Option Value

/-- The fields of a record with these names: an object must not have one of them twice, and an array
must not be too long. -/
def Value.members (names : List String) : Value → Option Members
  | .obj fs =>
    if ((known names fs).map Prod.fst).Nodup then
      some ⟨true, fun key => (known names fs).lookup key⟩
    else none
  | .arr vs =>
    if vs.length ≤ names.length then some ⟨false, fun key => vs[names.idxOf key]?⟩ else none
  | _ => none

namespace Members

variable {α : Type*}

/-- A field that must be there. -/
def required (m : Members) (key : String) (f : Value → Option α) : Option α := (m.get key).bind f

/-- A field with a default. -/
def withDefault (m : Members) (key : String) (f : Value → Option α) (d : α) : Option α :=
  match m.get key with
  | some v => f v
  | none => some d

/-- A field that an object may leave out. -/
def optional (m : Members) (key : String) (f : Value → Option α) : Option (Option α) :=
  match m.get key with
  | some v => v.asOption f
  | none => if m.named then some none else none

/-- The fields of an object that leaves some of them out. -/
def leaving (omitted : List String) (fs : List (String × Value)) : Members :=
  ⟨true, fun key => if key ∈ omitted then none else fs.lookup key⟩

section Leaving

variable {omitted : List String} {fs : List (String × Value)} {key : String} {v : Value} {x d : α}

theorem get_leaving_of_mem (hk : key ∈ omitted) : (leaving omitted fs).get key = none := if_pos hk

theorem get_leaving_of_notMem (hk : key ∉ omitted) :
    (leaving omitted fs).get key = fs.lookup key := if_neg hk

/-- A field that is not left out is read. -/
theorem required_leaving (key : String) (f : Value → Option α) (hk : key ∉ omitted)
    (hv : fs.lookup key = some v) (hx : f v = some x) :
    (leaving omitted fs).required key f = some x := by
  rw [required, get_leaving_of_notMem hk, hv, Option.bind_some, hx]

/-- A field that is left out has its default. -/
theorem withDefault_leaving (key : String) (f : Value → Option α) (hv : fs.lookup key = some v)
    (hx : f v = some x) :
    (leaving omitted fs).withDefault key f d = some (if key ∈ omitted then d else x) := by
  by_cases hk : key ∈ omitted
  · rw [withDefault, get_leaving_of_mem hk, if_pos hk]
  · rw [withDefault, get_leaving_of_notMem hk, hv, if_neg hk]
    exact hx

end Leaving

end Members

section Lookup

variable {β : Type*} {key : String}

/-- Where no key comes twice, looking up is membership. -/
theorem lookup_eq_some_iff {fs : List (String × β)} (h : (fs.map Prod.fst).Nodup) {v : β} :
    fs.lookup key = some v ↔ (key, v) ∈ fs := by
  induction fs with
  | nil => exact ⟨nofun, nofun⟩
  | cons kv fs ih =>
      obtain ⟨k, w⟩ := kv
      obtain ⟨hk, hfs⟩ := List.nodup_cons.1 h
      rw [List.lookup_cons, List.mem_cons]
      by_cases heq : key = k
      · subst heq
        rw [beq_self_eq_true]
        constructor
        · rintro ⟨⟩
          exact .inl rfl
        · rintro (hv | hv)
          · rw [(Prod.mk.inj hv).2]
          · exact absurd (List.mem_map_of_mem hv) hk
      · rw [beq_false_of_ne heq]
        constructor
        · exact fun hv => .inr ((ih hfs).1 hv)
        · rintro (hv | hv)
          · exact absurd (Prod.mk.inj hv).1 heq
          · exact (ih hfs).2 hv

/-- Looking up does not see the order. -/
theorem lookup_perm {fs gs : List (String × β)} (h : (fs.map Prod.fst).Nodup) (hp : fs.Perm gs) :
    fs.lookup key = gs.lookup key := by
  have hg : (gs.map Prod.fst).Nodup := (hp.map Prod.fst).nodup_iff.1 h
  refine Option.ext fun v => ?_
  rw [lookup_eq_some_iff h, lookup_eq_some_iff hg, hp.mem_iff]

/-- What is left out is not found, and all else is. -/
theorem lookup_filter {fs : List (String × β)} {p : String → Bool} :
    (fs.filter fun kv => p kv.1).lookup key = if p key then fs.lookup key else none := by
  induction fs with
  | nil => exact (ite_self _).symm
  | cons kv fs ih =>
      obtain ⟨k, w⟩ := kv
      rw [List.filter_cons, List.lookup_cons]
      dsimp only
      by_cases heq : key = k
      · subst heq
        rw [beq_self_eq_true]
        cases hp : p key with
        | true => rw [if_pos rfl, List.lookup_cons, beq_self_eq_true, if_pos rfl]
        | false => rw [if_neg Bool.false_ne_true, if_neg Bool.false_ne_true, ih, hp]; rfl
      · rw [beq_false_of_ne heq]
        cases hp : p k with
        | true => rw [if_pos rfl, List.lookup_cons, beq_false_of_ne heq, ih]
        | false => rw [if_neg Bool.false_ne_true, ih]

end Lookup

variable {names : List String} {fs gs : List (String × Value)}

/-- **The fields of a record are read in whatever order they stand**, and next to whatever else
there is: only the fields with a known name matter. -/
theorem members_perm (h : (known names fs).Perm gs) (hg : (gs.map Prod.fst).Nodup) :
    (Value.obj fs).members names = some ⟨true, fun key => gs.lookup key⟩ := by
  have hf : ((known names fs).map Prod.fst).Nodup := (h.map Prod.fst).nodup_iff.2 hg
  rw [Value.members, if_pos hf]
  congr 2
  funext key
  exact lookup_perm hf h

/-- **The fields that are left out are the only ones that are missing.** -/
theorem members_omit (omitted : List String) (gs : List (String × Value))
    (h : (known names fs).Perm (gs.filter fun kv => decide (kv.1 ∉ omitted)))
    (hg : (gs.map Prod.fst).Nodup) :
    (Value.obj fs).members names = some (Members.leaving omitted gs) := by
  have hsub : ((gs.filter fun kv => decide (kv.1 ∉ omitted)).map Prod.fst).Nodup :=
    hg.sublist (List.filter_sublist.map _)
  rw [members_perm h hsub]
  congr 2
  funext key
  rw [lookup_filter (p := fun k => decide (k ∉ omitted))]
  by_cases hk : key ∈ omitted
  · simp [hk]
  · simp [hk]

/-! ### Variants -/

/-- The name of a variant under a tag, and the rest. -/
def Value.tagged (tag : String) : Value → Option (String × Value)
  | .obj fs =>
    match fs.filter fun kv => decide (kv.1 = tag) with
    | [(_, .str name)] => some (name, .obj (fs.filter fun kv => decide (kv.1 ≠ tag)))
    | _ => none
  | .arr (.str name :: vs) => some (name, .arr vs)
  | _ => none

/-- **The tag may stand anywhere**, and so may the fields of the variant. -/
theorem tagged_perm {tag name : String} {omitted : List String}
    (h : (known (tag :: names) fs).Perm
      ((tag, .str name) :: gs.filter fun kv => decide (kv.1 ∉ omitted)))
    (htag : tag ∉ names) (hnames : ∀ kv ∈ gs, kv.1 ∈ names) (hg : (gs.map Prod.fst).Nodup) :
    ∃ rest, (Value.obj fs).tagged tag = some (name, rest) ∧
      rest.members names = some (Members.leaving omitted gs) := by
  have hne : ∀ kv ∈ gs, kv.1 ≠ tag := fun kv hkv heq => htag (heq ▸ hnames kv hkv)
  have hone : (fs.filter fun kv => decide (kv.1 = tag)) = [(tag, .str name)] := by
    have hf : (fs.filter fun kv => decide (kv.1 = tag)) =
        (known (tag :: names) fs).filter fun kv => decide (kv.1 = tag) := by
      rw [known, List.filter_filter]
      refine List.filter_congr fun kv _ => ?_
      by_cases hk : kv.1 = tag
      · simp [hk]
      · simp [hk]
    have hnone : (gs.filter fun kv => decide (kv.1 ∉ omitted)).filter
        (fun kv => decide (kv.1 = tag)) = [] := by
      refine List.filter_eq_nil_iff.2 fun kv hkv => ?_
      simpa using hne kv (List.mem_of_mem_filter hkv)
    have hperm := h.filter fun kv => decide (kv.1 = tag)
    rw [List.filter_cons_of_pos (by simp), hnone] at hperm
    rw [hf]
    exact List.perm_singleton.1 hperm
  refine ⟨_, by rw [Value.tagged, hone], ?_⟩
  refine members_omit omitted gs ?_ hg
  have hrest : known names (fs.filter fun kv => decide (kv.1 ≠ tag)) =
      (known (tag :: names) fs).filter fun kv => decide (kv.1 ≠ tag) := by
    rw [known, known, List.filter_filter, List.filter_filter]
    refine List.filter_congr fun kv _ => ?_
    by_cases hk : kv.1 = tag
    · simp [hk]
    · simp [hk]
  have hall : (gs.filter fun kv => decide (kv.1 ∉ omitted)).filter
      (fun kv => decide (kv.1 ≠ tag)) = gs.filter fun kv => decide (kv.1 ∉ omitted) := by
    refine List.filter_eq_self.2 fun kv hkv => ?_
    simpa using hne kv (List.mem_of_mem_filter hkv)
  have hperm := h.filter fun kv => decide (kv.1 ≠ tag)
  rw [List.filter_cons_of_neg (by simp), hall] at hperm
  rw [hrest]
  exact hperm

/-! ### Sorted documents -/

/-- Put a field in its place, or in the place of one with the same name. -/
def insertField (key : String) (v : Value) : List (String × Value) → List (String × Value)
  | [] => [(key, v)]
  | (k, w) :: fs =>
    if key < k then (key, v) :: (k, w) :: fs
    else if key = k then (k, v) :: fs
    else (k, w) :: insertField key v fs

mutual

/-- The document with the fields of its objects in order; of two with the same name, the later one
is kept. -/
def Value.sorted : Value → Value
  | .arr vs => .arr (Value.sortedAll vs)
  | .obj fs => .obj (Value.sortedFields [] fs)
  | v => v

def Value.sortedAll : List Value → List Value
  | [] => []
  | v :: vs => v.sorted :: Value.sortedAll vs

def Value.sortedFields (acc : List (String × Value)) :
    List (String × Value) → List (String × Value)
  | [] => acc
  | (key, v) :: fs => Value.sortedFields (insertField key v.sorted acc) fs

end

/-- A field of an object. -/
def Value.get (key : String) : Value → Option Value
  | .obj fs => fs.lookup key
  | _ => none

end Serde
