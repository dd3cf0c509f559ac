import Mathlib.Data.List.Sort
import Mathlib.Data.String.Basic

/-! JSON values over an arbitrary type of numbers. -/
namespace DbAgent.JsonText

/-- A JSON value. The members of an object are kept in a list; an object that
stands for a finite map keeps them in the order of `keyLt`, see `Canonical`. -/
inductive Json (ν : Type) where
  | null
  | bool (b : Bool)
  | num (n : ν)
  | str (s : String)
  | arr (xs : List (Json ν))
  | obj (kvs : List (String × Json ν))

open Json

variable {ν : Type}

def utf16 (c : Char) : List ℕ :=
  if c.toNat < 0x10000 then [c.toNat]
  else [0xD800+(c.toNat-0x10000)/0x400, 0xDC00+(c.toNat-0x10000)%0x400]

def keyLt (a b : String) : Prop :=
  List.Lex (· < ·) (a.toList.flatMap utf16) (b.toList.flatMap utf16)

mutual
/-- Every object inside the value is a finite map: its member names are
pairwise distinct and stand in increasing order. -/
def Json.Canonical : Json ν → Prop
  | .null => True
  | .bool _ => True
  | .num _ => True
  | .str _ => True
  | .arr xs => CanonicalList xs
  | .obj kvs => kvs.Pairwise (fun a b => keyLt a.1 b.1) ∧ CanonicalMembers kvs
def Json.CanonicalList : List (Json ν) → Prop
  | [] => True
  | x :: xs => Canonical x ∧ CanonicalList xs
def Json.CanonicalMembers : List (String × Json ν) → Prop
  | [] => True
  | (_, v) :: kvs => Canonical v ∧ CanonicalMembers kvs
end

variable {μ : Type}

mutual
/-- Replace every number by a value. -/
def Json.bindNum (f : ν → Json μ) : Json ν → Json μ
  | .null => .null
  | .bool b => .bool b
  | .num n => f n
  | .str s => .str s
  | .arr xs => .arr (bindNumList f xs)
  | .obj kvs => .obj (bindNumMembers f kvs)
def Json.bindNumList (f : ν → Json μ) : List (Json ν) → List (Json μ)
  | [] => []
  | x :: xs => bindNum f x :: bindNumList f xs
def Json.bindNumMembers (f : ν → Json μ) : List (String × Json ν) → List (String × Json μ)
  | [] => []
  | (k, v) :: kvs => (k, bindNum f v) :: bindNumMembers f kvs
end

theorem bindNumMembers_keys (f : ν → Json μ) (kvs : List (String × Json ν)) :
    (bindNumMembers f kvs).map Prod.fst = kvs.map Prod.fst := by
  induction kvs with
  | nil => rw [bindNumMembers, List.map_nil, List.map_nil]
  | cons kv kvs ih =>
    obtain ⟨k, v⟩ := kv
    rw [bindNumMembers, List.map_cons, List.map_cons, ih]

mutual
theorem canonical_bindNum (f : ν → Json μ) (hf : ∀ n, (f n).Canonical) (v : Json ν)
    (h : v.Canonical) : (v.bindNum f).Canonical := by
  match v with
  | .null => exact h
  | .bool _ => exact h
  | .num n =>
    rw [bindNum]
    exact hf n
  | .str _ => exact h
  | .arr xs =>
    rw [bindNum, Canonical]
    rw [Canonical] at h
    exact canonicalList_bindNum f hf xs h
  | .obj kvs =>
    rw [bindNum, Canonical]
    rw [Canonical] at h
    refine ⟨?_, canonicalMembers_bindNum f hf kvs h.2⟩
    have hkeys : (kvs.map Prod.fst).Pairwise keyLt := List.pairwise_map.mpr h.1
    rw [← bindNumMembers_keys f kvs] at hkeys
    exact List.pairwise_map.mp hkeys
theorem canonicalList_bindNum (f : ν → Json μ) (hf : ∀ n, (f n).Canonical)
    (xs : List (Json ν)) (h : CanonicalList xs) :
    CanonicalList (bindNumList f xs) := by
  match xs with
  | [] =>
    rw [bindNumList]
    exact trivial
  | x :: xs =>
    rw [CanonicalList] at h
    rw [bindNumList, CanonicalList]
    exact ⟨canonical_bindNum f hf x h.1, canonicalList_bindNum f hf xs h.2⟩
theorem canonicalMembers_bindNum (f : ν → Json μ) (hf : ∀ n, (f n).Canonical)
    (kvs : List (String × Json ν)) (h : CanonicalMembers kvs) :
    CanonicalMembers (bindNumMembers f kvs) := by
  match kvs with
  | [] =>
    rw [bindNumMembers]
    exact trivial
  | (k, v) :: kvs =>
    rw [CanonicalMembers] at h
    rw [bindNumMembers, CanonicalMembers]
    exact ⟨canonical_bindNum f hf v h.1, canonicalMembers_bindNum f hf kvs h.2⟩
end

mutual
theorem bindNum_bindNum {ρ : Type} (f : ν → Json μ) (g : μ → Json ρ) (v : Json ν) :
    (v.bindNum f).bindNum g = v.bindNum (fun n => (f n).bindNum g) := by
  match v with
  | .null => rfl
  | .bool _ => rfl
  | .num _ => rfl
  | .str _ => rfl
  | .arr xs => simp only [bindNum, bindNumList_bindNumList f g xs]
  | .obj kvs => simp only [bindNum, bindNumMembers_bindNumMembers f g kvs]
theorem bindNumList_bindNumList {ρ : Type} (f : ν → Json μ) (g : μ → Json ρ)
    (xs : List (Json ν)) : bindNumList g (bindNumList f xs) =
      bindNumList (fun n => (f n).bindNum g) xs := by
  match xs with
  | [] => rfl
  | x :: xs => simp only [bindNumList, bindNum_bindNum f g x, bindNumList_bindNumList f g xs]
theorem bindNumMembers_bindNumMembers {ρ : Type} (f : ν → Json μ) (g : μ → Json ρ)
    (kvs : List (String × Json ν)) : bindNumMembers g (bindNumMembers f kvs) =
      bindNumMembers (fun n => (f n).bindNum g) kvs := by
  match kvs with
  | [] => rfl
  | (k, v) :: kvs =>
    simp only [bindNumMembers, bindNum_bindNum f g v, bindNumMembers_bindNumMembers f g kvs]
end

mutual
theorem bindNum_num (v : Json ν) : v.bindNum .num = v := by
  match v with
  | .null => rfl
  | .bool _ => rfl
  | .num _ => rfl
  | .str _ => rfl
  | .arr xs => rw [bindNum, bindNumList_num xs]
  | .obj kvs => rw [bindNum, bindNumMembers_num kvs]
theorem bindNumList_num (xs : List (Json ν)) : bindNumList .num xs = xs := by
  match xs with
  | [] => rfl
  | x :: xs => rw [bindNumList, bindNum_num x, bindNumList_num xs]
theorem bindNumMembers_num (kvs : List (String × Json ν)) :
    bindNumMembers .num kvs = kvs := by
  match kvs with
  | [] => rfl
  | (k, v) :: kvs => rw [bindNumMembers, bindNum_num v, bindNumMembers_num kvs]
end

mutual
/-- How deep arrays and objects are nested. -/
def Json.depth : Json ν → ℕ
  | .null => 0
  | .bool _ => 0
  | .num _ => 0
  | .str _ => 0
  | .arr xs => depthList xs + 1
  | .obj kvs => depthMembers kvs + 1
def Json.depthList : List (Json ν) → ℕ
  | [] => 0
  | x :: xs => max x.depth (depthList xs)
def Json.depthMembers : List (String × Json ν) → ℕ
  | [] => 0
  | (_, v) :: kvs => max v.depth (depthMembers kvs)
end

mutual
theorem depth_bindNum (f : ν → Json μ) (hf : ∀ n, (f n).depth = 0) (v : Json ν) :
    (v.bindNum f).depth = v.depth := by
  match v with
  | .null => rfl
  | .bool _ => rfl
  | .num n => exact hf n
  | .str _ => rfl
  | .arr xs => rw [bindNum, depth, depth, depthList_bindNum f hf xs]
  | .obj kvs => rw [bindNum, depth, depth, depthMembers_bindNum f hf kvs]
theorem depthList_bindNum (f : ν → Json μ) (hf : ∀ n, (f n).depth = 0) (xs : List (Json ν)) :
    depthList (bindNumList f xs) = depthList xs := by
  match xs with
  | [] => rfl
  | x :: xs =>
    rw [bindNumList, depthList, depthList, depth_bindNum f hf x,
      depthList_bindNum f hf xs]
theorem depthMembers_bindNum (f : ν → Json μ) (hf : ∀ n, (f n).depth = 0)
    (kvs : List (String × Json ν)) :
    depthMembers (bindNumMembers f kvs) = depthMembers kvs := by
  match kvs with
  | [] => rfl
  | (k, v) :: kvs =>
    rw [bindNumMembers, depthMembers, depthMembers, depth_bindNum f hf v,
      depthMembers_bindNum f hf kvs]
end

mutual
/-- Every number of the value satisfies the predicate. -/
def Json.allNum (p : ν → Bool) : Json ν → Bool
  | .null => true
  | .bool _ => true
  | .num n => p n
  | .str _ => true
  | .arr xs => allNumList p xs
  | .obj kvs => allNumMembers p kvs
def Json.allNumList (p : ν → Bool) : List (Json ν) → Bool
  | [] => true
  | x :: xs => x.allNum p && allNumList p xs
def Json.allNumMembers (p : ν → Bool) : List (String × Json ν) → Bool
  | [] => true
  | (_, v) :: kvs => v.allNum p && allNumMembers p kvs
end

instance : DecidableRel keyLt := fun _ _ => inferInstanceAs (Decidable (List.Lex (· < ·) _ _))

structure Object (ν : Type) where
  members : List (String × Json ν)
  canonical : (obj members).Canonical

def Object.toJson (o : Object ν) : Json ν := .obj o.members

theorem Object.ext_toJson (o o' : Object ν) (h : o.toJson = o'.toJson) : o = o' := by
  cases o
  cases o'
  cases h
  rfl

def Object.empty : Object ν := ⟨[], by simp [Canonical, CanonicalMembers]⟩

/-- Replace every number of an object by a value. -/
def Object.bindNum (f : ν → Json μ) (hf : ∀ n, (f n).Canonical) (o : Object ν) : Object μ where
  members := Json.bindNumMembers f o.members
  canonical := by
    have h := canonical_bindNum f hf (.obj o.members) o.canonical
    rwa [Json.bindNum] at h

def lookup (k : String) : List (String × Json ν) → Option (Json ν)
  | [] => none
  | (k', v) :: kvs => if k' = k then some v else lookup k kvs

end DbAgent.JsonText
