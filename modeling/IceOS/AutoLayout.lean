import IceOS.CanvasConnections
import IceOS.DependencyLayers
import Mathlib.Data.List.Sort

/-! The automatic layout of the canvas. It takes layers of nodes whose dependencies have a place already, and puts the
nodes of a layer side by side. -/
namespace IceOS.CanvasStore

open DependencyLayers

variable {φ ι : Type}

/-- What every object of JavaScript has. -/
def builtinNames : List String :=
  ["constructor","toString","toLocaleString","valueOf","hasOwnProperty","isPrototypeOf","propertyIsEnumerable","__proto__",
    "__defineGetter__","__defineSetter__","__lookupGetter__","__lookupSetter__"]

/-- A key that is an index of arrays, without leading zeros. -/
def arrayIndex? (key : String) : Option Nat :=
  let digits := key.toList
  let i := Nat.ofDigitChars 10 digits 0
  if digits ≠ [] ∧ digits.all Char.isDigit ∧ (digits.head? = some '0' → digits = ['0']) ∧ i < 2 ^ 32 - 1 then some i
  else none

/-- `Object.keys`: indices come first, from the smallest on, and the other keys as they were added. -/
def objectKeys (keys : List String) : List String :=
  (keys.filter fun k => (arrayIndex? k).isSome).insertionSort (fun j k => (arrayIndex? j).getD 0 ≤ (arrayIndex? k).getD 0) ++
    keys.filter fun k => !(arrayIndex? k).isSome

def dependenciesOf (n : CanvasNode φ ι) : List String := n.dependencies.getD []

/-- A dependency that is no key yet becomes one. -/
def addDependency (incoming : OrderedDict String Nat) (d : String) : OrderedDict String Nat :=
  if d ∈ incoming.keys ∨ d ∈ builtinNames then incoming else incoming.set d 0

def countDependencies (incoming : OrderedDict String Nat) (n : CanvasNode φ ι) : OrderedDict String Nat :=
  (dependenciesOf n).foldl addDependency (incoming.set n.id (dependenciesOf n).length)

def incomingOf (nodes : List (CanvasNode φ ι)) : OrderedDict String Nat := nodes.foldl countDependencies .empty

def firstFrontier (nodes : List (CanvasNode φ ι)) : List String :=
  let incoming := incomingOf nodes
  (objectKeys incoming.keys).filter fun k => incoming.get? k = some 0

/-- The entries in the order in which they are written. -/
def positionEntries (layers : List (List String)) : List (String × Nat × Nat) :=
  layers.zipIdx.flatMap fun layer => layer.1.zipIdx.map fun entry => (entry.1,80 + entry.2 * 220,60 + layer.2 * 120)

/-- Without fuel the layers have no end. -/
def computeSimpleDagLayout (fuel : Nat) (bp : Option (CanvasBlueprint φ ι)) : Option (OrderedDict String (Nat × Nat)) :=
  let nodes := (bp.bind (·.nodes)).getD []
  if nodes.isEmpty then some .empty
  else do
    let found ← layers (nodes.map (·.id)) (depsOf nodes) fuel [] (firstFrontier nodes)
    return OrderedDict.ofList (positionEntries found)

/-! ### What the layout should be -/

/-- The ids differ, and none is the name of something that every object has. -/
structure WellNamed (nodes : List (CanvasNode φ ι)) : Prop where
  distinct : (nodes.map (·.id)).Nodup
  plain : ∀ n ∈ nodes, n.id ∉ builtinNames

/-- Every node has one position of its own, as far down as its longest path is long. -/
structure LaidOut (nodes : List (CanvasNode φ ι)) (pos : OrderedDict String (Nat × Nat)) : Prop where
  keys : ∀ id, id ∈ pos.keys ↔ id ∈ nodes.map (·.id)
  apart : ∀ i j p, pos.get? i = some p → pos.get? j = some p → i = j
  depth : ∀ id p, pos.get? id = some p → ∃ k, DependencyLayers.Depth (depsOf nodes) id k ∧ p.2 = 60 + 120 * k

def Resolvable (nodes : List (CanvasNode φ ι)) : Prop := ∀ n ∈ nodes, ∀ d ∈ dependenciesOf n, d ∈ nodes.map (·.id)

theorem mem_depsOf_iff {nodes : List (CanvasNode φ ι)} (distinct : (nodes.map (·.id)).Nodup) (id d : String) :
    d ∈ depsOf nodes id ↔ Depends nodes id d :=
  OrderedDict.mem_getD_ofList (fun n : CanvasNode φ ι => n.id) (fun n => n.dependencies.getD []) distinct id d

/-! ### The first layer -/

theorem objectKeys_perm (keys : List String) : (objectKeys keys).Perm keys := by
  have sorted := List.perm_insertionSort (fun j k => (arrayIndex? j).getD 0 ≤ (arrayIndex? k).getD 0)
    (keys.filter fun k => (arrayIndex? k).isSome)
  exact (sorted.append_right _).trans (List.filter_append_perm _ keys)

/-- The nodes that were counted have their numbers, and all other keys are dependencies of them. -/
structure Counted (done : List (CanvasNode φ ι)) (incoming : OrderedDict String Nat) : Prop where
  own : ∀ n ∈ done, incoming.get? n.id = some (dependenciesOf n).length
  keys : ∀ k ∈ incoming.keys, (∃ n ∈ done, n.id = k) ∨ ∃ n ∈ done, k ∈ dependenciesOf n

/-- Dependencies leave what is known and become keys. -/
structure Extends (deps : List String) (incoming later : OrderedDict String Nat) : Prop where
  kept : ∀ k count, incoming.get? k = some count → later.get? k = some count
  keys : ∀ k ∈ later.keys, k ∈ incoming.keys ∨ k ∈ deps

theorem addDependency_extends (incoming : OrderedDict String Nat) (d : String) :
    Extends [d] incoming (addDependency incoming d) := by
  rw [addDependency]
  split
  · exact ⟨fun _ _ known => known,fun _ member => .inl member⟩
  · next fresh =>
    refine ⟨fun k count known => ?_,fun k member => ?_⟩
    · have other : d ≠ k := by
        rintro rfl
        exact fresh (.inl ((OrderedDict.mem_keys _ _).mpr (known ▸ rfl)))
      rwa [OrderedDict.get?_set_other _ _ other]
    · rcases (OrderedDict.mem_keys_set _ _ _ _).mp member with rfl | old
      · exact .inr List.mem_cons_self
      · exact .inl old

theorem addDependencies_extends (deps : List String) (incoming : OrderedDict String Nat) :
    Extends deps incoming (deps.foldl addDependency incoming) := by
  induction deps generalizing incoming with
  | nil => exact ⟨fun _ _ known => known,fun _ member => .inl member⟩
  | cons d rest ih =>
    have first := addDependency_extends incoming d
    have later := ih (addDependency incoming d)
    refine ⟨fun k count known => later.kept k count (first.kept k count known),fun k member => ?_⟩
    rcases later.keys k member with old | new
    · exact (first.keys k old).imp_right fun same => List.mem_cons.mpr (.inl (List.mem_singleton.mp same))
    · exact .inr (List.mem_cons_of_mem d new)

theorem Counted.node {done : List (CanvasNode φ ι)} {incoming : OrderedDict String Nat} (counted : Counted done incoming)
    (n : CanvasNode φ ι) (new : n.id ∉ done.map (·.id)) : Counted (done ++ [n]) (countDependencies incoming n) := by
  have more := addDependencies_extends (dependenciesOf n) (incoming.set n.id (dependenciesOf n).length)
  constructor
  · intro m member
    refine more.kept _ _ ?_
    rcases List.mem_append.mp member with old | last
    · have other : n.id ≠ m.id := fun same => new (same ▸ List.mem_map_of_mem old)
      rw [OrderedDict.get?_set_other _ _ other]
      exact counted.own m old
    · obtain rfl := List.mem_singleton.mp last
      exact OrderedDict.get?_set_same ..
  · intro k member
    rcases more.keys k member with before | depends
    · rcases (OrderedDict.mem_keys_set _ _ _ _).mp before with rfl | old
      · exact .inl ⟨n,by simp,rfl⟩
      · exact (counted.keys k old).imp (fun ⟨m,inside,own⟩ => ⟨m,List.mem_append_left _ inside,own⟩)
          fun ⟨m,inside,depends⟩ => ⟨m,List.mem_append_left _ inside,depends⟩
    · exact .inr ⟨n,by simp,depends⟩

theorem incomingOf_counted {nodes : List (CanvasNode φ ι)} (distinct : (nodes.map (·.id)).Nodup) :
    Counted nodes (incomingOf nodes) := by
  induction nodes using List.reverseRecOn with
  | nil => exact ⟨by simp,by simp [incomingOf]⟩
  | append_singleton done n ih =>
    rw [List.map_append,List.nodup_append] at distinct
    rw [incomingOf,List.foldl_append]
    exact (ih distinct.1).node n fun old => distinct.2.2 _ old _ (List.mem_cons_self) rfl

theorem mem_firstFrontier {nodes : List (CanvasNode φ ι)} (distinct : (nodes.map (·.id)).Nodup)
    (resolvable : Resolvable nodes) (id : String) :
    id ∈ firstFrontier nodes ↔ id ∈ nodes.map (·.id) ∧ depsOf nodes id = [] := by
  have counted := incomingOf_counted distinct
  have known (n : CanvasNode φ ι) (inside : n ∈ nodes) : depsOf nodes n.id = [] ↔ dependenciesOf n = [] := by
    simp only [List.eq_nil_iff_forall_not_mem,mem_depsOf_iff distinct]
    constructor
    · exact fun none d depends => none d ⟨n,inside,rfl,depends⟩
    · rintro none d ⟨m,within,same,depends⟩
      obtain rfl := List.inj_on_of_nodup_map distinct within inside same
      exact none d depends
  have sources (n : CanvasNode φ ι) (inside : n ∈ nodes) :
      (incomingOf nodes).get? n.id = some 0 ↔ depsOf nodes n.id = [] := by
    rw [counted.own n inside,known n inside,Option.some.injEq,List.length_eq_zero_iff]
  rw [firstFrontier,List.mem_filter,(objectKeys_perm _).mem_iff,decide_eq_true_eq]
  constructor
  · rintro ⟨key,zero⟩
    have inside : id ∈ nodes.map (·.id) := by
      rcases counted.keys id key with ⟨n,inside,rfl⟩ | ⟨n,inside,depends⟩
      · exact List.mem_map_of_mem inside
      · exact resolvable n inside id depends
    obtain ⟨n,known,rfl⟩ := List.mem_map.mp inside
    exact ⟨inside,(sources n known).mp zero⟩
  · rintro ⟨inside,none⟩
    obtain ⟨n,known,rfl⟩ := List.mem_map.mp inside
    have zero := (sources n known).mpr none
    exact ⟨(OrderedDict.mem_keys _ _).mpr (zero ▸ rfl),zero⟩

theorem firstFrontier_nodup (nodes : List (CanvasNode φ ι)) : (firstFrontier nodes).Nodup :=
  ((objectKeys_perm _).nodup_iff.mpr (OrderedDict.keys_nodup _)).filter _

/-! ### The positions -/

theorem mem_positionEntries (layers : List (List String)) (id : String) (p : Nat × Nat) :
    (id,p) ∈ positionEntries layers ↔ ∃ (i j : Nat) (layer : List String), layers[i]? = some layer ∧
      layer[j]? = some id ∧ p = (80 + j * 220,60 + i * 120) := by
  simp only [positionEntries,List.mem_flatMap,List.mem_map,Prod.exists,List.mk_mem_zipIdx_iff_getElem?,Prod.mk.injEq]
  constructor
  · rintro ⟨layer,i,there,_,j,inside,rfl,same⟩
    exact ⟨i,j,layer,there,inside,same.symm⟩
  · rintro ⟨i,j,layer,there,inside,rfl⟩
    exact ⟨layer,i,there,id,j,inside,rfl,rfl⟩

theorem positionEntries_keys (layers : List (List String)) : (positionEntries layers).map Prod.fst = layers.flatten := by
  have column (layer : List String × Nat) : (layer.1.zipIdx.map fun entry =>
      ((entry.1,80 + entry.2 * 220,60 + layer.2 * 120) : String × Nat × Nat)).map Prod.fst = layer.1 := by
    rw [List.map_map]
    exact List.zipIdx_map_fst 0 layer.1
  rw [positionEntries,List.map_flatMap]
  simp only [column]
  rw [List.flatMap_def,List.zipIdx_map_fst]

theorem flatten_nodup {ids : List String} {deps : String → List String} {found : List (List String)}
    (layered : Layered ids deps 0 found) : found.flatten.Nodup := by
  refine List.nodup_flatten.mpr ⟨layered.once,List.pairwise_iff_getElem.mpr fun i j first second before => ?_⟩
  intro n one two
  have low := ((layered.exact i found[i] (List.getElem?_eq_getElem first) n).mp one).2
  have high := ((layered.exact j found[j] (List.getElem?_eq_getElem second) n).mp two).2
  have same := low.unique high
  omega

/-- The layers as positions. -/
theorem laidOut {nodes : List (CanvasNode φ ι)} {found : List (List String)}
    (layered : Layered (nodes.map (·.id)) (depsOf nodes) 0 found)
    (bounded : ∀ id ∈ nodes.map (·.id), ∃ k, DependencyLayers.Depth (depsOf nodes) id k) :
    LaidOut nodes (OrderedDict.ofList (positionEntries found)) := by
  have keys : ((positionEntries found).map Prod.fst).Nodup := positionEntries_keys found ▸ flatten_nodup layered
  have placed (id : String) (p : Nat × Nat) : (OrderedDict.ofList (positionEntries found)).get? id = some p ↔
      ∃ (i j : Nat) (layer : List String), found[i]? = some layer ∧ layer[j]? = some id ∧
        p = (80 + j * 220,60 + i * 120) := by
    rw [OrderedDict.get?_eq_some,OrderedDict.ofList_items _ keys,mem_positionEntries]
  refine ⟨fun id => ?_,fun a b p first second => ?_,fun id p position => ?_⟩
  · rw [OrderedDict.mem_keys_ofList,positionEntries_keys,List.mem_flatten]
    constructor
    · rintro ⟨layer,member,inside⟩
      obtain ⟨i,there⟩ := List.mem_iff_getElem?.mp member
      exact ((layered.exact i layer there id).mp inside).1
    · intro inside
      obtain ⟨k,depth⟩ := bounded id inside
      have depth : DependencyLayers.Depth (depsOf nodes) id (0 + k) := (Nat.zero_add k).symm ▸ depth
      have there := List.getElem?_eq_getElem (layered.complete id inside k depth)
      exact ⟨_,List.mem_of_getElem? there,(layered.exact k _ there id).mpr ⟨inside,depth⟩⟩
  · obtain ⟨i,j,layer,there,inside,rfl⟩ := (placed a p).mp first
    obtain ⟨i',j',layer',there',inside',same⟩ := (placed b _).mp second
    obtain ⟨across,down⟩ := Prod.mk.inj same
    obtain rfl : i = i' := by omega
    obtain rfl : j = j' := by omega
    obtain rfl := Option.some.inj (there.symm.trans there')
    exact Option.some.inj (inside.symm.trans inside')
  · obtain ⟨i,j,layer,there,inside,rfl⟩ := (placed id p).mp position
    have depth := ((layered.exact i layer there id).mp (List.mem_of_getElem? inside)).2
    rw [Nat.zero_add] at depth
    exact ⟨i,depth,congrArg (60 + ·) (Nat.mul_comm i 120)⟩

theorem resolved_iff {nodes : List (CanvasNode φ ι)} (distinct : (nodes.map (·.id)).Nodup) :
    Resolvable nodes ↔ Resolved (nodes.map (·.id)) (depsOf nodes) := by
  simp only [Resolvable,Resolved,mem_depsOf_iff distinct]
  constructor
  · rintro resolvable id _ d ⟨n,within,_,depends⟩
    exact resolvable n within d depends
  · exact fun resolved n inside d depends => resolved n.id (List.mem_map_of_mem inside) d ⟨n,inside,rfl,depends⟩

theorem graph_acyclic {nodes : List (CanvasNode φ ι)} (distinct : (nodes.map (·.id)).Nodup)
    (resolved : Resolved (nodes.map (·.id)) (depsOf nodes)) (acyclic : Acyclic nodes) :
    (graph distinct resolved).Acyclic := by
  intro id cycle
  have back : Relation.TransGen (Function.swap (Depends nodes)) id id :=
    Relation.TransGen.mono (fun d n edge =>
      (mem_depsOf_iff distinct n d).mp ((graph_edge distinct resolved d n).mp edge).2) _ _ cycle
  exact acyclic id (Relation.transGen_swap.mp back)

theorem computeSimpleDagLayout_layering (bp : Option (CanvasBlueprint φ ι))
    (named : WellNamed ((bp.bind (·.nodes)).getD [])) :
    ∃ pos, (∀ fuel, ((bp.bind (·.nodes)).getD []).length < fuel → computeSimpleDagLayout fuel bp = some pos) ∧
      (Acyclic ((bp.bind (·.nodes)).getD []) → Resolvable ((bp.bind (·.nodes)).getD []) →
        LaidOut ((bp.bind (·.nodes)).getD []) pos) := by
  simp only [computeSimpleDagLayout]
  generalize (bp.bind (·.nodes)).getD [] = nodes at named
  cases empty : nodes.isEmpty with
  | true =>
    obtain rfl := List.isEmpty_iff.mp empty
    exact ⟨.empty,fun _ _ => rfl,fun _ _ => ⟨by simp,by simp,by simp⟩⟩
  | false =>
    have least : unseen (nodes.map (·.id)) [] < nodes.length + 1 :=
      Nat.lt_succ_of_le ((List.length_filter_le _ _).trans_eq (List.length_map _))
    obtain ⟨found,ended⟩ := layers_ends (nodes.map (·.id)) (depsOf nodes) (firstFrontier nodes) least
    refine ⟨OrderedDict.ofList (positionEntries found),fun fuel enough => ?_,fun acyclic resolvable => ?_⟩
    · rw [layers_mono ended enough]
      rfl
    · have resolved := (resolved_iff named.distinct).mp resolvable
      have reached : Reached (nodes.map (·.id)) (depsOf nodes) 0 [] (firstFrontier nodes) := by
        refine ⟨fun id _ => ⟨fun member => (by cases member),fun within => absurd within not_within_zero⟩,fun id => ?_,
          firstFrontier_nodup nodes⟩
        rw [mem_firstFrontier named.distinct resolvable,depth_zero_iff]
      refine laidOut (layers_layered resolved reached ended) fun id inside => ?_
      exact depth_exists (within_length named.distinct resolved (graph_acyclic named.distinct resolved acyclic) inside)

/-- Two ways lead from the first node to the last, one of them through another node. -/
def forked : CanvasBlueprint Unit Unit where
  nodes := some
    [{ id := "write",dependencies := some ["check","read"] },{ id := "check",dependencies := some ["parse"] },
      { id := "read" },{ id := "parse",dependencies := some ["read"] }]

theorem forked_layering : ∃ pos, (∀ fuel, (forked.nodes.getD []).length < fuel →
      computeSimpleDagLayout fuel (some forked) = some pos) ∧
    (Acyclic (forked.nodes.getD []) → Resolvable (forked.nodes.getD []) → LaidOut (forked.nodes.getD []) pos) :=
  computeSimpleDagLayout_layering (some forked) ⟨by decide,by decide⟩

example : (computeSimpleDagLayout 5 (some forked)).map (·.items) =
    some [("read",80,60),("parse",80,180),("check",80,300),("write",80,420)] := by decide +kernel

end IceOS.CanvasStore
