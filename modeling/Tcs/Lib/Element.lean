/-
# Element trees

What a parser makes of an XML document: a tree of elements, each with a tag,
attributes, the text before its first child, the text behind its end and
children. Attributes are a list of pairs that is read as a dictionary: the
first pair of a name counts, the order does not.

Two elements have the same shape if they differ only in white space around
texts and in the order of attributes. What is read from an element by tags,
attributes and children is the same for elements of one shape
(`SameShapes.map`, `SameShapes.filter`, `Element.leaf_shape`).

Key definitions: `Xml.Element`, `Xml.dictEq`, `Element.bare`,
`Element.shapeEq`, `Element.findall`, `Xml.Leaf`.
Key theorems: `dictEq_iff`, `shapeEq_iff`, `SameShapes.map`,
`SameShapes.filter`.
-/
import Mathlib.Data.List.Forall2
import Mathlib.Tactic

namespace Xml

/-! ### Dictionaries -/

section

variable {κ α : Type*} [DecidableEq κ] [DecidableEq α]

/-- What a list of pairs is as a dictionary. -/
def dict (a : List (κ × α)) : κ → Option α := fun k => a.lookup k

/-- Equality of dictionaries. -/
def dictEq (a b : List (κ × α)) : Bool :=
  (a.map Prod.fst ++ b.map Prod.fst).all fun k => dict a k = dict b k

omit [DecidableEq α] in
@[simp] theorem dict_nil (k : κ) : dict ([] : List (κ × α)) k = none := rfl

omit [DecidableEq α] in
theorem dict_cons (k' : κ) (v : α) (a : List (κ × α)) (k : κ) :
    dict ((k', v) :: a) k = if k = k' then some v else dict a k := by
  unfold dict
  rw [List.lookup_cons]
  by_cases h : k = k'
  · rw [if_pos h, beq_iff_eq.mpr h]
  · rw [if_neg h, beq_eq_false_iff_ne.mpr h]

omit [DecidableEq α] in
theorem mem_keys_iff {a : List (κ × α)} {k : κ} : k ∈ a.map Prod.fst ↔ dict a k ≠ none := by
  rw [dict, Ne, List.lookup_eq_none_iff, List.mem_map]
  simp only [bne_iff_ne, not_forall, not_not]
  constructor
  · rintro ⟨p, hp, rfl⟩
    exact ⟨p, hp, rfl⟩
  · rintro ⟨p, hp, rfl⟩
    exact ⟨p, hp, rfl⟩

/-- Dictionaries are equal if they look up the same. -/
theorem dictEq_iff {a b : List (κ × α)} : dictEq a b = true ↔ dict a = dict b := by
  unfold dictEq
  rw [List.all_eq_true]
  constructor
  · intro h
    funext k
    by_cases hk : k ∈ a.map Prod.fst ++ b.map Prod.fst
    · exact of_decide_eq_true (h k hk)
    · rw [List.mem_append, not_or, mem_keys_iff, mem_keys_iff, not_not, not_not] at hk
      rw [hk.1, hk.2]
  · intro h k _
    rw [h]
    exact decide_eq_true rfl

end

/-! ### Elements -/

/-- White space, as texts are stripped of it. -/
def space (c : Char) : Bool :=
  (9 ≤ c.toNat ∧ c.toNat ≤ 13) ∨ (28 ≤ c.toNat ∧ c.toNat ≤ 32) ∨ c.toNat = 0x85 ∨ c.toNat = 0xa0 ∨
    c.toNat = 0x1680 ∨ (0x2000 ≤ c.toNat ∧ c.toNat ≤ 0x200a) ∨ c.toNat = 0x2028 ∨ c.toNat = 0x2029 ∨
    c.toNat = 0x202f ∨ c.toNat = 0x205f ∨ c.toNat = 0x3000

/-- A text without the white space around it. -/
def strip (text : String) : List Char :=
  ((text.toList.dropWhile space).reverse.dropWhile space).reverse

/-- An element of a tree. A text that is missing is empty. -/
inductive Element
  | mk (tag : String) (attrib : List (String × String)) (text tail : String)
    (children : List Element)

namespace Element

def tag : Element → String
  | mk tag _ _ _ _ => tag

def attrib : Element → List (String × String)
  | mk _ attrib _ _ _ => attrib

def text : Element → String
  | mk _ _ text _ _ => text

def tail : Element → String
  | mk _ _ _ tail _ => tail

def children : Element → List Element
  | mk _ _ _ _ children => children

/-- The value of an attribute. -/
def get (e : Element) : String → Option String := dict e.attrib

/-- The children with a tag. -/
def findall (e : Element) (tag : String) : List Element := e.children.filter fun c => c.tag = tag

/-- The element with a new value for an attribute. -/
def set (e : Element) (name value : String) : Element :=
  mk e.tag ((name, value) :: e.attrib.filter fun p => p.1 ≠ name) e.text e.tail e.children

/-- The element with other children. -/
def withChildren (e : Element) (children : List Element) : Element :=
  mk e.tag e.attrib e.text e.tail children

mutual

/-- No text but white space, in the element and below it. -/
def bare : Element → Bool
  | mk _ _ text tail children => strip text = [] && strip tail = [] && bareAll children

/-- No text but white space, in any of the elements. -/
def bareAll : List Element → Bool
  | [] => true
  | e :: es => e.bare && bareAll es

end

mutual

/-- Two elements of one shape. -/
def shapeEq : Element → Element → Bool
  | mk tag attrib text tail children, mk tag' attrib' text' tail' children' =>
    tag = tag' && dictEq attrib attrib' && strip text = strip text' && strip tail = strip tail' &&
      shapeEqAll children children'

/-- Elements that are of one shape in turn. -/
def shapeEqAll : List Element → List Element → Bool
  | [], [] => true
  | e :: es, e' :: es' => e.shapeEq e' && shapeEqAll es es'
  | _, _ => false

end

theorem bareAll_iff : ∀ es : List Element, bareAll es = true ↔ ∀ e ∈ es, e.bare = true
  | [] => by simp [bareAll]
  | e :: es => by simp [bareAll, bareAll_iff es]

theorem bare_iff (e : Element) :
    e.bare = true ↔ strip e.text = [] ∧ strip e.tail = [] ∧ ∀ c ∈ e.children, c.bare = true := by
  cases e
  rw [bare, Bool.and_eq_true, Bool.and_eq_true, decide_eq_true_iff, decide_eq_true_iff, bareAll_iff,
    and_assoc]
  rfl

/-- Lists of elements that are of one shape in turn. -/
abbrev SameShapes (es es' : List Element) : Prop := List.Forall₂ (fun e e' => e.shapeEq e' = true) es es'

theorem shapeEqAll_iff : ∀ es es' : List Element, shapeEqAll es es' = true ↔ SameShapes es es'
  | [], [] => by simp [shapeEqAll]
  | [], _ :: _ => by simp [shapeEqAll]
  | _ :: _, [] => by simp [shapeEqAll]
  | e :: es, e' :: es' => by simp [shapeEqAll, shapeEqAll_iff es es']

/-- What elements of one shape have in common. -/
theorem shapeEq_iff {e e' : Element} :
    e.shapeEq e' = true ↔ e.tag = e'.tag ∧ e.get = e'.get ∧ strip e.text = strip e'.text ∧
      strip e.tail = strip e'.tail ∧ SameShapes e.children e'.children := by
  cases e
  cases e'
  rw [shapeEq, Bool.and_eq_true, Bool.and_eq_true, Bool.and_eq_true, Bool.and_eq_true,
    decide_eq_true_iff, dictEq_iff, decide_eq_true_iff, decide_eq_true_iff, shapeEqAll_iff,
    and_assoc, and_assoc, and_assoc]
  rfl

/-- What is read alike from elements of one shape is read alike from their lists. -/
theorem SameShapes.map {α : Type*} {f : Element → α} {es es' : List Element} (h : SameShapes es es')
    (hf : ∀ e e', e.shapeEq e' = true → f e = f e') : es.map f = es'.map f := by
  induction h with
  | nil => rfl
  | cons he _ ih => rw [List.map_cons, List.map_cons, hf _ _ he, ih]

theorem SameShapes.filter {p : Element → Bool} {es es' : List Element} (h : SameShapes es es')
    (hp : ∀ e e', e.shapeEq e' = true → p e = p e') : SameShapes (es.filter p) (es'.filter p) := by
  induction h with
  | nil => exact .nil
  | @cons e e' es es' he _ ih =>
    rw [List.filter_cons, List.filter_cons, hp _ _ he]
    by_cases hpe : p e' = true
    · rw [if_pos hpe, if_pos hpe]
      exact .cons he ih
    · rw [if_neg hpe, if_neg hpe]
      exact ih

end Element

/-- What is read from an element that has nothing in it: its attributes, and how many children it
has. -/
structure Leaf where
  attrib : String → Option String
  children : ℕ

/-- The leaf of an element. -/
def Element.leaf (e : Element) : Leaf := ⟨e.get, e.children.length⟩

theorem Element.leaf_shape {e e' : Element} (h : e.shapeEq e' = true) : e.leaf = e'.leaf := by
  obtain ⟨-, hget, -, -, hchildren⟩ := shapeEq_iff.mp h
  unfold leaf
  rw [hget, hchildren.length_eq]

end Xml
