import IceOS.ActionRuns
import IceOS.PythonJson
import IceOS.PythonText
import IceOS.UndoHistory

/-! The store of the canvas: its blueprint and positions, their history, and the objects that the blueprint on the
canvas shares with the snapshots of the history. -/
namespace IceOS.CanvasStore

variable {φ ν ι κ : Type}

/-- A node; `ι` is what stands for the object of its inputs, and `fields` are the fields that the store never reads. -/
structure CanvasNode (φ ι : Type) where
  id : String
  dependencies : Option (List String) := none
  inputs : Option ι := none
  fields : List (String × Json φ) := []

structure CanvasBlueprint (φ ι : Type) where
  nodes : Option (List (CanvasNode φ ι)) := none
  fields : List (String × Json φ) := []

structure Snapshot (φ ν ι : Type) where
  blueprint : Option (CanvasBlueprint φ ι)
  positions : OrderedDict String (ν × ν)

abbrev Inputs (φ : Type) := OrderedDict String (Json φ)

/-- The store. Objects of inputs are places of the heap, as they are the only ones that are ever changed in place. -/
structure Canvas (φ ν : Type) where
  heap : List (Inputs φ) := []
  blueprint : Option (CanvasBlueprint φ Nat) := none
  selected : Option (String × String) := none
  positions : OrderedDict String (ν × ν) := .empty
  historyPast : List (Snapshot φ ν Nat) := []
  historyFuture : List (Snapshot φ ν Nat) := []

/-! ### The store's functions -/

def Canvas.snapshot (s : Canvas φ ν) : Snapshot φ ν Nat := ⟨s.blueprint,s.positions⟩

def setBlueprint (bp : Option (CanvasBlueprint φ Nat)) (s : Canvas φ ν) : Canvas φ ν :=
  { s with historyPast := s.historyPast ++ [s.snapshot],historyFuture := [],blueprint := bp }

def setPositions (pos : OrderedDict String (ν × ν)) (s : Canvas φ ν) : Canvas φ ν := { s with positions := pos }

def updatePositions (moved : OrderedDict String (ν × ν)) (s : Canvas φ ν) : Canvas φ ν :=
  { s with positions := s.positions.update moved.items }

/-- `v === text` -/
def isText (text : String) : Json φ → Bool
  | .str t => t = text
  | _ => false

/-- The inputs of the target with the source under the handle. -/
def connectInputs (source targetHandle : String) (inputs : Inputs φ) : Inputs φ :=
  match inputs.get? targetHandle with
  | some (.list current) =>
    if current.any (isText source) then inputs else inputs.set targetHandle (.list (current ++ [.str source]))
  | _ => inputs.set targetHandle (.str source)

/-- The target gets new inputs; the blueprint that was there keeps its own. -/
def connectEdge (source target : String) (targetHandle : String := "in") (s : Canvas φ ν) : Canvas φ ν :=
  match s.blueprint with
  | none => s
  | some prev =>
    let nodes := prev.nodes.getD []
    let idx := nodes.findIdx (·.id = target)
    match nodes[idx]? with
    | none => s
    | some node =>
      let deps := node.dependencies.getD []
      let inputs := (node.inputs.bind (s.heap[·]?)).getD .empty
      let connected := { node with
        dependencies := some (if source ∈ deps then deps else deps ++ [source])
        inputs := some s.heap.length }
      { s with
        heap := s.heap ++ [connectInputs source targetHandle inputs]
        blueprint := some { prev with nodes := some (nodes.set idx connected) } }

/-- The loop over the keys of the inputs. -/
def removeSource (src : String) (inputs : Inputs φ) : Inputs φ :=
  inputs.keys.foldl (fun inputs k =>
    match inputs.get? k with
    | some (.list items) => inputs.set k (.list (items.filter fun x => !isText src x))
    | some v => if isText src v then inputs.erase k else inputs
    | none => inputs) inputs

/-- One edge of `removeEdgesByIds`: the inputs of the node are changed where they are. -/
def removeEdge (parts : List (Inputs φ) × List (CanvasNode φ Nat)) (edgeId : String) :
    List (Inputs φ) × List (CanvasNode φ Nat) :=
  match PythonText.split "->" edgeId with
  | src :: tgt :: _ =>
    let (heap,nodes) := parts
    let idx := nodes.findIdx (·.id = tgt)
    match nodes[idx]? with
    | none => (heap,nodes)
    | some node =>
      let nodes := nodes.set idx
        { node with dependencies := some ((node.dependencies.getD []).filter (· ≠ src)) }
      match node.inputs with
      | none => (heap,nodes)
      | some r => (heap.modify r (removeSource src),nodes)
  | _ => parts

def removeEdgesByIds (ids : List String) (s : Canvas φ ν) : Canvas φ ν :=
  match s.blueprint with
  | none => s
  | some prev =>
    if ids = [] then s
    else
      let after := ids.foldl removeEdge (s.heap,prev.nodes.getD [])
      { s with heap := after.1,blueprint := some { prev with nodes := some after.2 } }

def undo (s : Canvas φ ν) : Canvas φ ν :=
  match s.historyPast.getLast? with
  | none => s
  | some prev =>
    { s with
      historyPast := s.historyPast.dropLast
      historyFuture := s.snapshot :: s.historyFuture
      blueprint := prev.blueprint
      positions := prev.positions
      selected := none }

def redo (s : Canvas φ ν) : Canvas φ ν :=
  match s.historyFuture with
  | [] => s
  | next :: future =>
    { s with
      historyPast := s.historyPast ++ [s.snapshot]
      historyFuture := future
      blueprint := next.blueprint
      positions := next.positions
      selected := none }

/-! ### Runs -/

def CanvasNode.map (f : ι → κ) (n : CanvasNode φ ι) : CanvasNode φ κ := { n with inputs := n.inputs.map f }

def CanvasBlueprint.map (f : ι → κ) (bp : CanvasBlueprint φ ι) : CanvasBlueprint φ κ :=
  { bp with nodes := bp.nodes.map (·.map (·.map f)) }

def Snapshot.map (f : ι → κ) (x : Snapshot φ ν ι) : Snapshot φ ν κ := { x with blueprint := x.blueprint.map (·.map f) }

/-- What stands for inputs anywhere in the blueprint is as `p` says. -/
def CanvasBlueprint.All (p : ι → Prop) (bp : CanvasBlueprint φ ι) : Prop :=
  ∀ n ∈ bp.nodes.getD [], ∀ r ∈ n.inputs, p r

def Snapshot.All (p : ι → Prop) (x : Snapshot φ ν ι) : Prop := ∀ bp ∈ x.blueprint, bp.All p

/-- A snapshot with the inputs as they are now. -/
def Snapshot.seen (heap : List (Inputs φ)) (x : Snapshot φ ν Nat) : Snapshot φ ν (Option (Inputs φ)) :=
  x.map (heap[·]?)

/-- What is on the canvas. -/
def shown (s : Canvas φ ν) : Snapshot φ ν (Option (Inputs φ)) := s.snapshot.seen s.heap

/-- Calls of the store, and objects that its callers make: a blueprint that is set is built of such, and of what the
store has had. The arrangements, such as `alignLeft`, set the positions that they compute. -/
inductive Action (φ ν : Type) where
  | create (inputs : Inputs φ)
  | setBlueprint (bp : Option (CanvasBlueprint φ Nat))
  | connectEdge (source target targetHandle : String)
  | removeEdgesByIds (ids : List String)
  | setPositions (pos : OrderedDict String (ν × ν))
  | updatePositions (moved : OrderedDict String (ν × ν))
  | undo
  | redo

/-- The objects of the blueprint exist. -/
def exist (heap : List (Inputs φ)) (bp : Option (CanvasBlueprint φ Nat)) : Bool :=
  bp.all fun bp => (bp.nodes.getD []).all fun n => n.inputs.all (· < heap.length)

def step (s : Canvas φ ν) : Action φ ν → Option (Canvas φ ν)
  | .create inputs => some { s with heap := s.heap ++ [inputs] }
  | .setBlueprint bp => if exist s.heap bp then some (setBlueprint bp s) else none
  | .connectEdge source target targetHandle => some (connectEdge source target targetHandle s)
  | .removeEdgesByIds ids => some (removeEdgesByIds ids s)
  | .setPositions pos => some (setPositions pos s)
  | .updatePositions moved => some (updatePositions moved s)
  | .undo => some (undo s)
  | .redo => some (redo s)

/-- The store, and the history of what was on the canvas. -/
structure Tracked (φ ν : Type) where
  canvas : Canvas φ ν
  history : UndoHistory (Snapshot φ ν (Option (Inputs φ)))

open Classical in
/-- Setting the blueprint is a structural change; connecting or removing edges is one if it changes anything. -/
noncomputable def follow (h : UndoHistory (Snapshot φ ν (Option (Inputs φ))))
    (after : Snapshot φ ν (Option (Inputs φ))) : Action φ ν → UndoHistory (Snapshot φ ν (Option (Inputs φ)))
  | .create _ => h
  | .setBlueprint _ => h.change after
  | .connectEdge _ _ _ | .removeEdgesByIds _ => if after = h.current then h else h.change after
  | .setPositions _ | .updatePositions _ => h.adjust after
  | .undo => h.undo
  | .redo => h.redo

noncomputable def Tracked.step (s : Tracked φ ν) (a : Action φ ν) : Option (Tracked φ ν) :=
  (CanvasStore.step s.canvas a).map fun t => ⟨t,follow s.history (shown t) a⟩

/-- The edge is there already, or the target is not. -/
def Joined (source target targetHandle : String) (s : Canvas φ ν) : Prop :=
  ∀ prev ∈ s.blueprint, ∀ node ∈ (prev.nodes.getD []).find? (·.id = target),
    (∃ deps ∈ node.dependencies, source ∈ deps) ∧ ∃ r ∈ node.inputs, ∃ inputs ∈ s.heap[r]?,
      ∃ v ∈ inputs.get? targetHandle, isText source v = true ∨ ∃ items, v = .list items ∧ items.any (isText source) = true

/-- The edge is not there: neither the dependencies nor the inputs of the target name the source. -/
def Parted (edgeId : String) (s : Canvas φ ν) : Prop :=
  ∀ prev ∈ s.blueprint, ∀ src tgt rest, PythonText.split "->" edgeId = src :: tgt :: rest →
    ∀ node ∈ (prev.nodes.getD []).find? (·.id = tgt), (∃ deps ∈ node.dependencies, src ∉ deps) ∧
      ∀ r ∈ node.inputs, ∀ inputs ∈ s.heap[r]?, ∀ k, ∀ v ∈ inputs.get? k,
        isText src v = false ∧ ∀ items, v = .list items → items.any (isText src) = false

/-- Calls that connect or remove edges find nothing to do. -/
def Quiet (s : Canvas φ ν) : Action φ ν → Prop
  | .connectEdge source target targetHandle => Joined source target targetHandle s
  | .removeEdgesByIds ids => ids ≠ [] → (∀ prev ∈ s.blueprint, prev.nodes.isSome) ∧ ∀ edgeId ∈ ids, Parted edgeId s
  | _ => True

/-- Undo leads to what preceded the latest structural change that is not undone, and redo after it back. -/
structure Restores (s : Tracked φ ν) : Prop where
  undone : ∀ before rest, s.history.past = before :: rest → shown (undo s.canvas) = before
  first : s.history.past = [] → undo s.canvas = s.canvas
  redone : s.canvas.historyPast ≠ [] → shown (redo (undo s.canvas)) = shown s.canvas

/-! ### Objects and snapshots -/

theorem CanvasBlueprint.map_congr {f g : ι → κ} {bp : CanvasBlueprint φ ι} (same : bp.All fun r => f r = g r) :
    bp.map f = bp.map g := by
  obtain ⟨nodes,fields⟩ := bp
  cases nodes with
  | none => rfl
  | some nodes =>
    simp only [map,Option.map_some,CanvasBlueprint.mk.injEq,Option.some.injEq,and_true]
    refine List.map_congr_left fun n member => ?_
    have inputs : n.inputs.map f = n.inputs.map g := Option.map_congr fun r given => same n member r given
    rw [CanvasNode.map,CanvasNode.map,inputs]

theorem Snapshot.map_congr {f g : ι → κ} {x : Snapshot φ ν ι} (same : x.All fun r => f r = g r) :
    x.map f = x.map g := by
  have blueprint : x.blueprint.map (·.map f) = x.blueprint.map (·.map g) :=
    Option.map_congr fun bp given => CanvasBlueprint.map_congr (same bp given)
  rw [map,map,blueprint]

/-- New objects change nothing that is seen of the old ones. -/
theorem Snapshot.seen_append {heap : List (Inputs φ)} {x : Snapshot φ ν Nat} (live : x.All (· < heap.length))
    (more : List (Inputs φ)) : x.seen (heap ++ more) = x.seen heap :=
  map_congr fun bp given n member r inputs => List.getElem?_append_left (live bp given n member r inputs)

theorem Snapshot.All.mono {p q : ι → Prop} {x : Snapshot φ ν ι} (all : x.All p) (weaker : ∀ r, p r → q r) : x.All q :=
  fun bp given n member r inputs => weaker r (all bp given n member r inputs)

theorem exist_iff {heap : List (Inputs φ)} {bp : Option (CanvasBlueprint φ Nat)} :
    exist heap bp = true ↔ ∀ b ∈ bp, b.All (· < heap.length) := by
  cases bp <;> simp [exist,CanvasBlueprint.All,Option.all_eq_true]

/-! ### Calls that find nothing to do -/

theorem set_same {α : Type} {l : List α} {i : Nat} {a : α} (here : l[i]? = some a) : l.set i a = l := by
  apply List.ext_getElem?
  intro j
  by_cases same : i = j
  · subst same
    obtain ⟨bound,_⟩ := List.getElem?_eq_some_iff.mp here
    rw [List.getElem?_set_self bound,here]
  · rw [List.getElem?_set_ne same]

theorem connectInputs_same {source targetHandle : String} {inputs : Inputs φ} {v : Json φ}
    (known : inputs.get? targetHandle = some v)
    (joined : isText source v = true ∨ ∃ items, v = .list items ∧ items.any (isText source) = true) :
    connectInputs source targetHandle inputs = inputs := by
  rcases joined with text | ⟨items,rfl,present⟩
  · cases v with
    | str t =>
      obtain rfl : t = source := by simpa [isText] using text
      simp only [connectInputs,known]
      exact OrderedDict.set_eq_self known
    | _ => contradiction
  · simp only [connectInputs,known,present,if_true]

theorem removeSource_same {src : String} {inputs : Inputs φ}
    (parted : ∀ k, ∀ v ∈ inputs.get? k, isText src v = false ∧ ∀ items, v = .list items → items.any (isText src) = false) :
    removeSource src inputs = inputs := by
  refine List.foldl_fixed' (fun k => ?_) inputs.keys
  cases known : inputs.get? k with
  | none => rfl
  | some v =>
    obtain ⟨other,items⟩ := parted k v known
    cases v with
    | list values =>
      have kept : (values.filter fun x => !isText src x) = values := by
        refine List.filter_eq_self.mpr fun x member => ?_
        simpa using List.any_eq_false.mp (items values rfl) x member
      simp only [kept]
      exact OrderedDict.set_eq_self known
    | str t => simp only [other,Bool.false_eq_true,if_false]
    | _ => rfl

/-- A node may be replaced by one of which the same is seen. -/
theorem CanvasBlueprint.map_set {f : ι → κ} {bp : CanvasBlueprint φ ι} {idx : Nat} {node other : CanvasNode φ ι}
    (found : (bp.nodes.getD [])[idx]? = some node) (same : other.map f = node.map f) :
    ({ bp with nodes := some ((bp.nodes.getD []).set idx other) } : CanvasBlueprint φ ι).map f = bp.map f := by
  obtain ⟨nodes,fields⟩ := bp
  cases nodes with
  | none => contradiction
  | some nodes =>
    simp only [map,Option.map_some,Option.getD_some,CanvasBlueprint.mk.injEq,Option.some.injEq,and_true] at found ⊢
    rw [List.map_set,same]
    exact set_same (by rw [List.getElem?_map,found,Option.map_some])

section Quiet

variable {s : Canvas φ ν}

theorem removeEdge_same {edgeId : String} {prev : CanvasBlueprint φ Nat} (loaded : s.blueprint = some prev)
    (parted : Parted edgeId s) : removeEdge (s.heap,prev.nodes.getD []) edgeId = (s.heap,prev.nodes.getD []) := by
  simp only [removeEdge]
  split
  · next src tgt rest split =>
    have apart := parted prev loaded src tgt rest split
    rw [List.find?_eq_getElem?_findIdx] at apart
    split
    · rfl
    · next node found =>
      obtain ⟨⟨deps,known,free⟩,inputs⟩ := apart node found
      have kept : deps.filter (· ≠ src) = deps :=
        List.filter_eq_self.mpr fun d member => decide_eq_true fun same => free (same ▸ member)
      have same : ({ node with dependencies := some ((node.dependencies.getD []).filter (· ≠ src)) } :
          CanvasNode φ Nat) = node := by
        rw [Option.mem_def.mp known,Option.getD_some,kept,← Option.mem_def.mp known]
      rw [same,set_same found]
      split
      · rfl
      · next r given =>
        refine Prod.ext (List.ext_getElem? fun i => ?_) rfl
        rw [List.getElem?_modify]
        split
        · next own =>
          subst own
          cases at_r : s.heap[r]? with
          | none => rfl
          | some object => exact congrArg some (removeSource_same (inputs r given object at_r))
        · cases s.heap[i]? <;> rfl
  · rfl

theorem removeEdgesByIds_same {ids : List String} (quiet : Quiet s (.removeEdgesByIds ids)) :
    removeEdgesByIds ids s = s := by
  simp only [removeEdgesByIds]
  split
  · rfl
  · next prev loaded =>
    split
    · rfl
    · next some_ids =>
      obtain ⟨full,parted⟩ := quiet some_ids
      have same : ids.foldl removeEdge (s.heap,prev.nodes.getD []) = (s.heap,prev.nodes.getD []) := by
        clear some_ids quiet
        induction ids with
        | nil => rfl
        | cons edgeId rest ih =>
          rw [List.foldl_cons,removeEdge_same loaded (parted edgeId List.mem_cons_self)]
          exact ih fun id member => parted id (List.mem_cons_of_mem edgeId member)
      obtain ⟨nodes,known⟩ := Option.isSome_iff_exists.mp (full prev loaded)
      rw [same,known,Option.getD_some,← known,← loaded]

/-- The target gets a new object with the inputs that it had. -/
theorem connectEdge_same {source target targetHandle : String} (live : s.snapshot.All (· < s.heap.length))
    (joined : Joined source target targetHandle s) :
    ∃ more bp, connectEdge source target targetHandle s = { s with heap := s.heap ++ more,blueprint := bp } ∧
      (∀ b ∈ bp, b.All (· < (s.heap ++ more).length)) ∧
      bp.map (·.map ((s.heap ++ more)[·]?)) = s.blueprint.map (·.map (s.heap[·]?)) := by
  have unchanged (same : connectEdge source target targetHandle s = s) :
      ∃ more bp, connectEdge source target targetHandle s = { s with heap := s.heap ++ more,blueprint := bp } ∧
        (∀ b ∈ bp, b.All (· < (s.heap ++ more).length)) ∧
        bp.map (·.map ((s.heap ++ more)[·]?)) = s.blueprint.map (·.map (s.heap[·]?)) := by
    refine ⟨[],s.blueprint,?_,?_,?_⟩
    · rw [same,List.append_nil]
    · rw [List.append_nil]
      exact live
    · rw [List.append_nil]
  cases loaded : s.blueprint with
  | none => exact loaded ▸ unchanged (by simp only [connectEdge,loaded])
  | some prev =>
    have there := joined prev loaded
    rw [List.find?_eq_getElem?_findIdx] at there
    cases found : (prev.nodes.getD [])[(prev.nodes.getD []).findIdx (·.id = target)]? with
    | none => exact loaded ▸ unchanged (by simp only [connectEdge,loaded,found])
    | some node =>
      obtain ⟨⟨deps,known,member⟩,r,given,inputs,object,v,handle,own⟩ := there node found
      rw [Option.mem_def] at known given object handle
      have deref : (node.inputs.bind (s.heap[·]?)).getD .empty = inputs := by
        rw [given,Option.bind_some,object,Option.getD_some]
      have bound := (List.getElem?_eq_some_iff.mp object).1
      refine ⟨[inputs],some { prev with nodes := some ((prev.nodes.getD []).set
        ((prev.nodes.getD []).findIdx (·.id = target)) { node with inputs := some s.heap.length }) },?_,?_,?_⟩
      · simp only [connectEdge,loaded,found,deref,connectInputs_same handle own,known,Option.getD_some,member,if_true]
      · rintro b ⟨⟩ n inside i points
        rw [List.length_append,List.length_singleton]
        rcases List.mem_or_eq_of_mem_set inside with old | rfl
        · exact Nat.lt_succ_of_lt (live prev loaded n old i points)
        · cases points
          exact Nat.lt_succ_self _
      · have old : prev.map ((s.heap ++ [inputs])[·]?) = prev.map (s.heap[·]?) :=
          CanvasBlueprint.map_congr fun n inside i points =>
            List.getElem?_append_left (live prev loaded n inside i points)
        rw [Option.map_some,Option.map_some,← old]
        refine congrArg some (CanvasBlueprint.map_set found ?_)
        rw [CanvasNode.map,CanvasNode.map,given,Option.map_some,Option.map_some,List.getElem?_append_left bound,
          object,List.getElem?_concat_length]

end Quiet

/-! ### The store and the history -/

/-- The store keeps the history, and all of its objects exist. -/
structure Keeps (s : Tracked φ ν) : Prop where
  current : shown s.canvas = s.history.current
  past : (s.canvas.historyPast.map (·.seen s.canvas.heap)).reverse = s.history.past
  future : s.canvas.historyFuture.map (·.seen s.canvas.heap) = s.history.future
  live : s.canvas.snapshot.All (· < s.canvas.heap.length)
  kept : ∀ x ∈ s.canvas.historyPast ++ s.canvas.historyFuture, x.All (· < s.canvas.heap.length)

section History

variable {s : Tracked φ ν}

theorem undo_last {s : Canvas φ ν} {older : List (Snapshot φ ν Nat)} {last : Snapshot φ ν Nat}
    (changed : s.historyPast = older ++ [last]) :
    undo s = { s with
      historyPast := older,historyFuture := s.snapshot :: s.historyFuture
      blueprint := last.blueprint,positions := last.positions,selected := none } := by
  simp only [undo,changed,List.getLast?_concat,List.dropLast_concat]

theorem Keeps.undo (keeps : Keeps s) : Keeps ⟨undo s.canvas,s.history.undo⟩ := by
  rcases List.eq_nil_or_concat s.canvas.historyPast with unchanged | ⟨older,last,changed⟩
  · have same : CanvasStore.undo s.canvas = s.canvas := by
      rw [CanvasStore.undo,unchanged]
      rfl
    have past := keeps.past
    rw [unchanged] at past
    rw [same,UndoHistory.undo_none past.symm]
    exact keeps
  · rw [List.concat_eq_append] at changed
    have past := keeps.past
    have kept := keeps.kept
    rw [changed,List.map_append,List.reverse_append] at past
    rw [changed] at kept
    rw [undo_last changed,UndoHistory.undo_some past.symm]
    refine ⟨rfl,rfl,?_,kept last (by simp),fun x member => ?_⟩
    · rw [List.map_cons,keeps.future]
      exact congrArg (· :: s.history.future) keeps.current
    · rcases List.mem_append.mp member with before | after
      · exact kept x (by simp [before])
      · rcases List.mem_cons.mp after with rfl | later
        · exact keeps.live
        · exact kept x (by simp [later])

theorem Keeps.redo (keeps : Keeps s) : Keeps ⟨redo s.canvas,s.history.redo⟩ := by
  have future := keeps.future
  cases undone : s.canvas.historyFuture with
  | nil =>
    rw [undone] at future
    simp only [CanvasStore.redo,undone,UndoHistory.redo,← future,List.map_nil]
    exact keeps
  | cons next rest =>
    have kept := keeps.kept
    rw [undone] at future kept
    simp only [CanvasStore.redo,undone,UndoHistory.redo,← future,List.map_cons]
    refine ⟨rfl,?_,rfl,kept next (by simp),fun x member => ?_⟩
    · rw [List.map_append,List.reverse_append,keeps.past]
      exact congrArg (· :: s.history.past) keeps.current
    · rcases List.mem_append.mp member with before | after
      · rcases List.mem_append.mp before with old | own
        · exact kept x (by simp [old])
        · rw [List.mem_singleton.mp own]
          exact keeps.live
      · exact kept x (by simp [after])

theorem Keeps.restores (keeps : Keeps s) : Restores s where
  undone before rest changed := by
    rw [keeps.undo.current,UndoHistory.undo_some changed]
  first unchanged := by
    have past := keeps.past
    rw [unchanged,List.reverse_eq_nil_iff,List.map_eq_nil_iff] at past
    rw [CanvasStore.undo,past]
    rfl
  redone changed := by
    have some_past : s.history.past ≠ [] := by
      rw [← keeps.past]
      simpa using changed
    rw [keeps.undo.redo.current,UndoHistory.redo_undo some_past,keeps.current]

theorem map_seen_append {heap : List (Inputs φ)} {snapshots : List (Snapshot φ ν Nat)}
    (live : ∀ x ∈ snapshots, x.All (· < heap.length)) (more : List (Inputs φ)) :
    snapshots.map (·.seen (heap ++ more)) = snapshots.map (·.seen heap) :=
  List.map_congr_left fun x member => Snapshot.seen_append (live x member) more

/-- New objects, and another blueprint of which the same is seen. -/
theorem Keeps.grow (keeps : Keeps s) (more : List (Inputs φ)) (bp : Option (CanvasBlueprint φ Nat))
    (live : ∀ b ∈ bp, b.All (· < (s.canvas.heap ++ more).length))
    (same : bp.map (·.map ((s.canvas.heap ++ more)[·]?)) = s.canvas.blueprint.map (·.map (s.canvas.heap[·]?))) :
    Keeps ⟨{ s.canvas with heap := s.canvas.heap ++ more,blueprint := bp },s.history⟩ where
  current := by
    rw [← keeps.current,shown,shown,Snapshot.seen,Snapshot.seen,Snapshot.map,Snapshot.map]
    simp only [Canvas.snapshot,same]
  past := by
    rw [← keeps.past,map_seen_append fun x member => keeps.kept x (by simp [member])]
  future := by
    rw [← keeps.future,map_seen_append fun x member => keeps.kept x (by simp [member])]
  live := live
  kept := fun x member => (keeps.kept x member).mono fun r bound => by
    rw [List.length_append]
    exact Nat.lt_add_right _ bound

theorem Keeps.step {t : Tracked φ ν} {a : Action φ ν} (keeps : Keeps s) (quiet : Quiet s.canvas a)
    (stepped : s.step a = some t) : Keeps t := by
  obtain ⟨canvas,moved,rfl⟩ := Option.map_eq_some_iff.mp stepped
  cases a with
  | create inputs =>
    cases moved
    refine keeps.grow [inputs] s.canvas.blueprint (fun b given n member r points => ?_)
      (congrArg Snapshot.blueprint (Snapshot.seen_append keeps.live [inputs]))
    rw [List.length_append]
    exact Nat.lt_add_right _ (keeps.live b given n member r points)
  | setBlueprint bp =>
    simp only [CanvasStore.step] at moved
    split at moved
    · next exists_all =>
      cases moved
      refine ⟨rfl,?_,rfl,exist_iff.mp exists_all,fun x member => ?_⟩
      · simp only [setBlueprint,List.map_append,List.reverse_append,keeps.past]
        exact congrArg (· :: s.history.past) keeps.current
      · simp only [setBlueprint,List.append_nil,List.mem_append,List.mem_singleton] at member
        rcases member with old | rfl
        · exact keeps.kept x (List.mem_append_left _ old)
        · exact keeps.live
    · contradiction
  | connectEdge source target targetHandle =>
    cases moved
    obtain ⟨more,bp,same,live,seen⟩ := connectEdge_same keeps.live quiet
    have grown := keeps.grow more bp live seen
    simp only [same]
    rw [follow,if_pos grown.current]
    exact grown
  | removeEdgesByIds ids =>
    cases moved
    simp only [removeEdgesByIds_same quiet]
    rw [follow,if_pos keeps.current]
    exact keeps
  | setPositions pos =>
    cases moved
    exact ⟨rfl,keeps.past,keeps.future,keeps.live,keeps.kept⟩
  | updatePositions shift =>
    cases moved
    exact ⟨rfl,keeps.past,keeps.future,keeps.live,keeps.kept⟩
  | undo =>
    cases moved
    exact keeps.undo
  | redo =>
    cases moved
    exact keeps.redo

end History

/-- Such a step only makes new objects. -/
theorem step_heap {s t : Canvas φ ν} {a : Action φ ν} (live : s.snapshot.All (· < s.heap.length)) (quiet : Quiet s a)
    (stepped : step s a = some t) : ∃ more, t.heap = s.heap ++ more := by
  cases a with
  | create inputs =>
    cases stepped
    exact ⟨[inputs],rfl⟩
  | setBlueprint bp =>
    simp only [step] at stepped
    split at stepped
    · cases stepped
      exact ⟨[],(List.append_nil _).symm⟩
    · contradiction
  | connectEdge source target targetHandle =>
    cases stepped
    obtain ⟨more,bp,same,_⟩ := connectEdge_same live quiet
    exact ⟨more,by rw [same]⟩
  | removeEdgesByIds ids =>
    cases stepped
    exact ⟨[],by rw [removeEdgesByIds_same quiet,List.append_nil]⟩
  | setPositions pos =>
    cases stepped
    exact ⟨[],(List.append_nil _).symm⟩
  | updatePositions shift =>
    cases stepped
    exact ⟨[],(List.append_nil _).symm⟩
  | undo =>
    cases stepped
    refine ⟨[],?_⟩
    simp only [undo,List.append_nil]
    split <;> rfl
  | redo =>
    cases stepped
    refine ⟨[],?_⟩
    simp only [redo,List.append_nil]
    split <;> rfl

/-- The store as it is created. -/
def Tracked.start : Tracked φ ν := ⟨{},⟨shown {},[],[]⟩⟩

theorem keeps_start : Keeps (Tracked.start : Tracked φ ν) where
  current := rfl
  past := rfl
  future := rfl
  live _ given := by contradiction
  kept _ member := by contradiction

/-- Where calls that connect or remove edges find nothing to do, undo and redo restore what was there, and no call
changes what is seen of a snapshot. -/
theorem undo_restores {actions : List (Action φ ν)} {t : Tracked φ ν}
    (quiet : ActionRuns.Throughout Tracked.step (fun s => Quiet s.canvas) actions Tracked.start)
    (ran : ActionRuns.run Tracked.step actions Tracked.start = some t) :
    Restores t ∧ ∀ a u, Quiet t.canvas a → t.step a = some u →
      ∀ x ∈ t.canvas.historyPast ++ t.canvas.historyFuture, x.seen u.canvas.heap = x.seen t.canvas.heap := by
  have stays (s : Tracked φ ν) (a : Action φ ν) (t : Tracked φ ν) (keeps : Keeps s) (fine : Quiet s.canvas a)
      (stepped : s.step a = some t) : Keeps t := keeps.step fine stepped
  have keeps := ActionRuns.run_invariant stays ran keeps_start quiet
  refine ⟨keeps.restores,fun a u fine stepped x member => ?_⟩
  obtain ⟨canvas,moved,rfl⟩ := Option.map_eq_some_iff.mp stepped
  obtain ⟨more,grown⟩ := step_heap keeps.live fine moved
  simp only [grown]
  exact Snapshot.seen_append (keeps.kept x member) more

abbrev loneNode : CanvasBlueprint Unit Nat := { nodes := some [{ id := "b" }] }

abbrev joinedNode (label : String) : CanvasBlueprint Unit Nat :=
  { nodes := some [{ id := "b",dependencies := some ["a"],inputs := some 0 }],fields := [("name",.str label)] }

abbrev sampleCalls : List (Action Unit Int) :=
  [.create (.ofList [("in",.str "a")]),.setBlueprint (some (joinedNode "first")),.connectEdge "a" "b" "in",
    .updatePositions (.ofList [("b",(80,60))]),.undo]

/-- Connecting an edge that is there is no step of its own. -/
theorem sampleCalls_restore : ∃ t, ActionRuns.run Tracked.step sampleCalls Tracked.start = some t ∧ Restores t := by
  have quiet : ActionRuns.Throughout Tracked.step (fun s => Quiet s.canvas) sampleCalls Tracked.start := by
    refine ⟨trivial,?_⟩
    rintro _ ⟨⟩
    refine ⟨trivial,?_⟩
    rintro _ ⟨⟩
    refine ⟨?_,fun _ _ => ⟨trivial,fun _ _ => ⟨trivial,fun _ _ => trivial⟩⟩⟩
    rintro _ ⟨⟩ _ ⟨⟩
    exact ⟨⟨["a"],rfl,List.mem_singleton_self "a"⟩,0,rfl,.ofList [("in",.str "a")],rfl,.str "a",rfl,.inl rfl⟩
  exact ⟨_,rfl,(undo_restores quiet rfl).1⟩

/-- A new edge is no step of the history, so undo takes back the blueprint as a whole; and a removed edge also goes
from the snapshots that share the node. -/
theorem edges_escape_history :
    (¬∀ (actions : List (Action Unit Int)) t, ActionRuns.run Tracked.step actions Tracked.start = some t → Restores t) ∧
    ¬∀ (actions : List (Action Unit Int)) t a u, ActionRuns.run Tracked.step actions Tracked.start = some t →
      t.step a = some u → ∀ x ∈ t.canvas.historyPast ++ t.canvas.historyFuture,
        x.seen u.canvas.heap = x.seen t.canvas.heap := by
  constructor
  · intro always
    have restores := always [.setBlueprint (some loneNode),.connectEdge "a" "b" "in"] _ rfl
    have changed : (shown (connectEdge "a" "b" "in" (setBlueprint (some loneNode) ({} : Canvas Unit Int)))) ≠
        shown (setBlueprint (some loneNode) {}) := by
      intro same
      exact absurd (congrArg (fun x => x.blueprint.bind fun bp => bp.nodes.map fun nodes => nodes.map (·.dependencies)) same)
        (by decide)
    have undone := restores.undone (shown (setBlueprint (some loneNode) {})) [shown {}]
      (congrArg UndoHistory.past (if_neg changed))
    exact absurd (congrArg (fun x => x.blueprint.isSome) undone) (by decide)
  · intro always
    have same := always [.create (.ofList [("in",.str "a")]),.setBlueprint (some (joinedNode "first")),
      .setBlueprint (some (joinedNode "second"))] _ (.removeEdgesByIds ["a->b"]) _ rfl rfl
      ⟨some (joinedNode "first"),.empty⟩ (List.mem_append_left _ (.tail _ (.head _)))
    exact absurd (congrArg (fun x => x.blueprint.bind fun bp => bp.nodes.map fun nodes =>
      nodes.map fun n => n.inputs.map (·.map (·.keys))) same) (by decide)

end IceOS.CanvasStore
