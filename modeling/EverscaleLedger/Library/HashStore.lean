import Mathlib

/-! Stores of hashed nodes. The hash of a node is taken over its label and the digests of
its children, and some entries are known by their digest only. Two entries with one hash have
the same nodes below them, wherever both stores know them, or a collision of the hash
function can be read off the stores. -/
namespace EverscaleLedger.Library

variable {α β δ η ι κ : Type _}

/-- How nodes are hashed. A digest has the hash in it, and what else a parent hashes. -/
structure HashScheme (α β δ η : Type _) where
  Fits : α → List δ → Prop
  encode : α → List δ → β
  hash : β → η
  hashOf : δ → η
  encode_injective : ∀ {label label' : α} {children children' : List δ}, Fits label children →
    Fits label' children' → encode label children = encode label' children' →
    label = label' ∧ children = children'

/-- Entries are nodes with the entries below them, or not known (`none`). -/
structure HashStore (scheme : HashScheme α β δ η) (ι : Type _) where
  node : ι → Option (α × List ι)
  digest : ι → δ
  fits : ∀ {i : ι} {label : α} {children : List ι}, node i = some (label, children) →
    scheme.Fits label (children.map digest)
  hashed : ∀ {i : ι} {label : α} {children : List ι}, node i = some (label, children) →
    scheme.hashOf (digest i) = scheme.hash (scheme.encode label (children.map digest))

namespace HashStore

variable {scheme : HashScheme α β δ η} (store : HashStore scheme ι) (other : HashStore scheme κ)

/-- The entry that a path leads to, given as the numbers of children. -/
def follow (i : ι) : List Nat → Option ι
  | [] => some i
  | k :: path => do
      let (_, children) ← store.node i
      let j ← children[k]?
      follow j path

/-- What has been hashed for an entry and the nodes below it. -/
def Hashed (i : ι) (value : β) : Prop :=
  ∃ path j label children, store.follow i path = some j ∧
    store.node j = some (label, children) ∧
    value = scheme.encode label (children.map store.digest)

/-- Two different values were hashed to the same hash. -/
def Collides (i : ι) (j : κ) : Prop :=
  ∃ value value', store.Hashed i value ∧ other.Hashed j value' ∧ value ≠ value' ∧
    scheme.hash value = scheme.hash value'

variable {store other}

theorem follow_cons {i j : ι} {label : α} {children : List ι} {k : Nat} {path : List Nat}
    (hnode : store.node i = some (label, children)) (hchild : children[k]? = some j) :
    store.follow i (k :: path) = store.follow j path := by
  simp [follow, hnode, hchild]

theorem follow_cons_eq_some {i result : ι} {k : Nat} {path : List Nat}
    (h : store.follow i (k :: path) = some result) :
    ∃ label children j, store.node i = some (label, children) ∧ children[k]? = some j ∧
      store.follow j path = some result := by
  simp only [follow, Option.bind_eq_bind, Option.bind_eq_some_iff] at h
  obtain ⟨⟨label, children⟩, hnode, j, hchild, hrest⟩ := h
  exact ⟨label, children, j, hnode, hchild, hrest⟩

theorem hashed_self {i : ι} {label : α} {children : List ι}
    (hnode : store.node i = some (label, children)) :
    store.Hashed i (scheme.encode label (children.map store.digest)) :=
  ⟨[], i, label, children, rfl, hnode, rfl⟩

theorem Hashed.of_child {i j : ι} {label : α} {children : List ι} {k : Nat} {value : β}
    (h : store.Hashed j value) (hnode : store.node i = some (label, children))
    (hchild : children[k]? = some j) : store.Hashed i value := by
  obtain ⟨path, result, below, entries, hpath, hresult, hvalue⟩ := h
  exact ⟨k :: path, result, below, entries, (follow_cons hnode hchild).trans hpath, hresult, hvalue⟩

/-- One node: equal hashes mean equal labels and equal digests of the children. -/
theorem node_eq_or_collides {i : ι} {j : κ} {label label' : α} {children : List ι}
    {children' : List κ} (hnode : store.node i = some (label, children))
    (hnode' : other.node j = some (label', children'))
    (h : scheme.hashOf (store.digest i) = scheme.hashOf (other.digest j)) :
    store.Collides other i j ∨
      label = label' ∧ children.map store.digest = children'.map other.digest := by
  have hhash := (store.hashed hnode).symm.trans (h.trans (other.hashed hnode'))
  by_cases heq : scheme.encode label (children.map store.digest) =
      scheme.encode label' (children'.map other.digest)
  · exact Or.inr (scheme.encode_injective (store.fits hnode) (other.fits hnode') heq)
  · exact Or.inl ⟨_, _, hashed_self hnode, hashed_self hnode', heq, hhash⟩

/-- Two nodes at the end of one path have the same label, and children with the same
digests. The induction is on the path, one node of each store at a time. -/
theorem follow_node_or_collides {i i' : ι} {j j' : κ} {path : List Nat} {label label' : α}
    {children : List ι} {children' : List κ}
    (h : scheme.hashOf (store.digest i) = scheme.hashOf (other.digest j))
    (hpath : store.follow i path = some i') (hpath' : other.follow j path = some j')
    (hnode : store.node i' = some (label, children))
    (hnode' : other.node j' = some (label', children')) :
    store.Collides other i j ∨
      label = label' ∧ children.map store.digest = children'.map other.digest := by
  induction path generalizing i j with
  | nil =>
    obtain rfl := Option.some.inj hpath
    obtain rfl := Option.some.inj hpath'
    exact node_eq_or_collides hnode hnode' h
  | cons k path ih =>
    obtain ⟨above, entries, c, hstep, hchild, hrest⟩ := follow_cons_eq_some hpath
    obtain ⟨above', entries', c', hstep', hchild', hrest'⟩ := follow_cons_eq_some hpath'
    obtain hcollides | ⟨-, hdigests⟩ := node_eq_or_collides hstep hstep' h
    · exact Or.inl hcollides
    · have hdigest : some (store.digest c) = some (other.digest c') := by
        have hat := congrArg (fun digests => digests[k]?) hdigests
        simpa [List.getElem?_map, hchild, hchild'] using hat
      obtain hcollides | hequal := ih (congrArg scheme.hashOf (Option.some.inj hdigest)) hrest hrest'
      · obtain ⟨value, value', hvalue, hvalue', hne, hhash⟩ := hcollides
        exact Or.inl ⟨value, value', hvalue.of_child hstep hchild, hvalue'.of_child hstep' hchild',
          hne, hhash⟩
      · exact Or.inr hequal

end HashStore
end EverscaleLedger.Library
