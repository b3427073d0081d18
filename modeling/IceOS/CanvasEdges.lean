import IceOS.CanvasConnections

/-! Edges of the canvas. An edge's id is put together from its ends and the place of the dependency in the list, and
taken apart without the place: the target that is read is none of the edges' targets, or another one's. -/
namespace IceOS.CanvasStore

variable {φ ν ι κ : Type}

structure DrawnEdge where
  id : String
  source : String
  target : String
  deriving DecidableEq, Repr

/-- The dependencies under the id of their node. -/
def depOf (nodes : List (CanvasNode φ ι)) : OrderedDict String (List String) :=
  nodes.foldl (fun depOf n => (n.dependencies.getD []).foldl
    (fun depOf dep => depOf.set n.id (((depOf.get? n.id).getD []) ++ [dep])) depOf) .empty

def edgeId (source target : String) (i : Nat) : String := source ++ "->" ++ target ++ "-" ++ toString i

/-- The edges on the canvas. -/
def drawnEdges (bp : CanvasBlueprint φ ι) : List DrawnEdge :=
  (depOf (bp.nodes.getD [])).items.flatMap fun (target,sources) =>
    sources.zipIdx.map fun (source,i) => ⟨edgeId source target i,source,target⟩

/-! ### What removing edges should do -/

/-- The sources of the node's removed edges. -/
def goneSources (edges : List DrawnEdge) (nodeId : String) : List String :=
  (edges.filter (·.target = nodeId)).map (·.source)

/-- The inputs without the sources: they are taken out of lists, and ports that hold one are removed. -/
def clearedInputs (gone : List String) (inputs : Inputs φ) : Inputs φ :=
  (inputs.restrict fun k => (inputs.get? k).all fun v => !gone.any (isText · v)).mapValues fun v =>
    match v with
    | .list items => .list (items.filter fun x => !gone.any (isText · x))
    | v => v

def withoutEdges (edges : List DrawnEdge) (n : CanvasNode φ (Option (Inputs φ))) : CanvasNode φ (Option (Inputs φ)) :=
  let gone := goneSources edges n.id
  { n with
    dependencies := n.dependencies.map (·.filter (· ∉ gone))
    inputs := n.inputs.map (·.map (clearedInputs gone)) }

/-- The edges are taken out of the blueprint that is shown, and no blueprint that was there before changes. -/
structure RemovesExactly (s : Canvas φ ν) (bp : CanvasBlueprint φ Nat) (edges : List DrawnEdge) : Prop where
  after : ((removeEdgesByIds (edges.map (·.id)) s).blueprint.map (·.map ((removeEdgesByIds (edges.map (·.id)) s).heap[·]?))) =
    some { bp.map (s.heap[·]?) with nodes := (bp.map (s.heap[·]?)).nodes.map (·.map (withoutEdges edges)) }
  earlier : ∀ other : CanvasBlueprint φ Nat, other.All (· < s.heap.length) →
    other.map ((removeEdgesByIds (edges.map (·.id)) s).heap[·]?) = other.map (s.heap[·]?)

/-! ### What is read of an edge's id -/

/-- The ends that `removeEdgesByIds` reads. -/
def ReadAs (edgeId source target : String) : Prop := ∃ more, PythonText.split "->" edgeId = source :: target :: more

def arrow : List Char := ['-','>']

theorem split_eq (text : String) : PythonText.split "->" text = (PythonText.cut arrow 0 text.toList).map String.ofList := by
  rfl

/-- What is read contains no arrow. -/
theorem ReadAs.clear {edgeId source target : String} (read : ReadAs edgeId source target) :
    ¬arrow <:+: source.toList ∧ ¬arrow <:+: target.toList := by
  obtain ⟨more,pieces⟩ := read
  have clear (piece : String) (member : piece ∈ PythonText.split "->" edgeId) : ¬arrow <:+: piece.toList := by
    rw [split_eq] at member
    obtain ⟨chars,cut,rfl⟩ := List.mem_map.mp member
    rw [String.toList_ofList]
    exact PythonText.cut_pieces_clear (by decide) 0 _ chars cut
  exact ⟨clear source (by simp [pieces]),clear target (by simp [pieces])⟩

/-- Behind a text without an arrow, a hyphen does not complete one. -/
theorem startsAfter_hyphen {text : List Char} (clear : ¬arrow <:+: text) (rest : List Char) :
    PythonText.StartsAfter arrow text ('-' :: rest) := by
  intro left right parts some here
  rcases PythonText.prefix_append_cases here with ⟨more,inside⟩ | ⟨k,more,whole,starts⟩
  · exact clear ⟨left,more,by rw [parts,List.append_assoc,inside]⟩
  · cases right with
    | nil => exact some rfl
    | cons c right =>
      obtain ⟨d,k,rfl⟩ := List.exists_cons_of_ne_nil more
      have arrowhead : d = '>' := by
        cases right <;> simp_all [arrow]
      have hyphen := (List.cons_prefix_cons.mp starts).1
      exact absurd (arrowhead.symm.trans hyphen) (by decide)

theorem cut_hyphen {text : List Char} (clear : ¬arrow <:+: text) (rest : List Char) :
    PythonText.cut arrow 0 (text ++ '-' :: rest) = (PythonText.cut arrow 0 ('-' :: rest)).modifyHead (text ++ ·) :=
  PythonText.cut_prepend arrow text _ (startsAfter_hyphen clear rest)

theorem place_head (i : Nat) : ∃ d more, Nat.toDigits 10 i = d :: more ∧ d ≠ '>' := by
  obtain ⟨d,more,digits⟩ := List.exists_cons_of_ne_nil (Nat.toDigits_ne_nil (n := i) (b := 10))
  refine ⟨d,more,digits,fun same => ?_⟩
  have digit : d.isDigit = true := Nat.isDigit_of_mem_toDigits (by decide) (by decide) (digits ▸ List.mem_cons_self)
  exact absurd (same ▸ digit) (by decide)

/-- The target that is read goes on with the place. -/
theorem read_longer {source target read₁ read₂ : String} {i : Nat} (first : ¬arrow <:+: source.toList)
    (second : ¬arrow <:+: target.toList) (read : ReadAs (edgeId source target i) read₁ read₂) :
    read₁ = source ∧ target.length < read₂.length := by
  obtain ⟨more,pieces⟩ := read
  obtain ⟨d,digits,place,other⟩ := place_head i
  have chars : (edgeId source target i).toList = source.toList ++ '-' :: '>' :: (target.toList ++ '-' :: d :: digits) := by
    simp [edgeId,place]
  have arrowed : PythonText.cut arrow 0 ('-' :: '>' :: (target.toList ++ '-' :: d :: digits)) =
      [] :: PythonText.cut arrow 0 (target.toList ++ '-' :: d :: digits) :=
    PythonText.cut_found arrow _ (by decide)
  obtain ⟨head,tail,later⟩ := List.exists_cons_of_ne_nil (PythonText.cut_ne_nil arrow 0 (d :: digits))
  have placed : PythonText.cut arrow 0 ('-' :: d :: digits) = ('-' :: head) :: tail := by
    have unfinished : arrow.isPrefixOf ('-' :: d :: digits) = false := by simp [arrow,List.isPrefixOf,Ne.symm other]
    rw [PythonText.cut,unfinished,later]
    rfl
  rw [split_eq,chars,cut_hyphen first,arrowed,cut_hyphen second,placed] at pieces
  simp only [List.modifyHead_cons,List.map_cons,List.cons.injEq,List.append_nil] at pieces
  obtain ⟨one,two,_⟩ := pieces
  refine ⟨by rw [← one,String.ofList_toList],?_⟩
  have longer : 0 < ('-' :: head).length := Nat.succ_pos _
  rw [← two,← String.length_toList,← String.length_toList,String.toList_ofList,List.length_append]
  omega

/-! ### What stays -/

/-- An edge takes away only the dependency that is read of its id. -/
theorem removeEdge_depends {parts : List (Inputs φ) × List (CanvasNode φ Nat)} {id target source : String}
    (other : ¬ReadAs id source target) (depends : Depends parts.2 target source) :
    Depends (removeEdge parts id).2 target source := by
  unfold removeEdge
  split
  · next src tgt more pieces =>
    dsimp only
    split
    · exact depends
    · next node found =>
      have kept : Depends (parts.2.set (parts.2.findIdx (·.id = tgt))
          { node with dependencies := some ((node.dependencies.getD []).filter (· ≠ src)) }) target source := by
        obtain ⟨n,member,own,dep⟩ := depends
        rcases mem_set_of_mem found { node with
          dependencies := some ((node.dependencies.getD []).filter (· ≠ src)) } member with rfl | still
        · have apart : source ≠ src := by
            rintro rfl
            exact other ⟨more,by rw [pieces,← found_named found,own]⟩
          exact ⟨_,List.mem_set (List.getElem?_eq_some_iff.mp found).1 _,own,List.mem_filter.mpr ⟨dep,by simpa using apart⟩⟩
        · exact ⟨n,still,own,dep⟩
      split
      · exact kept
      · exact kept
  · exact depends

theorem removeEdges_depends {ids : List String} (parts : List (Inputs φ) × List (CanvasNode φ Nat)) {target source : String}
    (others : ∀ id ∈ ids, ¬ReadAs id source target) (depends : Depends parts.2 target source) :
    Depends (ids.foldl removeEdge parts).2 target source := by
  induction ids generalizing parts with
  | nil => exact depends
  | cons id rest ih =>
    have ⟨first,later⟩ := List.forall_mem_cons.mp others
    exact ih _ later (removeEdge_depends first depends)

/-- Of any edges that are removed, one is read of no id: one with an arrow in an end, or else one with a shortest
target. -/
theorem exists_unread {edges : List DrawnEdge} (some : edges ≠ [])
    (ids : ∀ e ∈ edges, ∃ i, e.id = edgeId e.source e.target i) :
    ∃ e ∈ edges, ∀ f ∈ edges, ¬ReadAs f.id e.source e.target := by
  by_cases clear : ∀ e ∈ edges, ¬arrow <:+: e.source.toList ∧ ¬arrow <:+: e.target.toList
  · obtain ⟨e,member,shortest⟩ := WellFounded.has_min (measure fun e : DrawnEdge => e.target.length).wf
      {e | e ∈ edges} (List.exists_mem_of_ne_nil edges some)
    refine ⟨e,member,fun f inside read => ?_⟩
    obtain ⟨i,named⟩ := ids f inside
    have longer := (read_longer (clear f inside).1 (clear f inside).2 (named ▸ read)).2
    exact shortest f inside longer
  · push Not at clear
    obtain ⟨e,member,arrowed⟩ := clear
    refine ⟨e,member,fun f _ read => ?_⟩
    exact read.clear.2 (arrowed read.clear.1)

/-- Under an id stand dependencies of its nodes. -/
def Collected (nodes : List (CanvasNode φ ι)) (depOf : OrderedDict String (List String)) : Prop :=
  ∀ nodeId deps, depOf.get? nodeId = some deps → ∀ dep ∈ deps, Depends nodes nodeId dep

theorem depOf_collected (nodes : List (CanvasNode φ ι)) : Collected nodes (depOf nodes) := by
  refine List.foldlRecOn nodes _ (motive := Collected nodes) (fun nodeId deps none => by cases none) ?_
  intro depOf before n member
  refine List.foldlRecOn (n.dependencies.getD []) _ (motive := Collected nodes) before fun depOf before dep own => ?_
  refine OrderedDict.forall_set ?_ before
  intro other inside
  rcases List.mem_append.mp inside with old | new
  · cases held : depOf.get? n.id with
    | none => simp [held] at old
    | some deps => exact before n.id deps held other (by simpa [held] using old)
  · exact List.mem_singleton.mp new ▸ ⟨n,member,rfl,own⟩

theorem mem_drawnEdges {bp : CanvasBlueprint φ ι} {e : DrawnEdge} (drawn : e ∈ drawnEdges bp) :
    (∃ i, e.id = edgeId e.source e.target i) ∧ Depends (bp.nodes.getD []) e.target e.source := by
  obtain ⟨⟨target,sources⟩,item,member⟩ := List.mem_flatMap.mp drawn
  obtain ⟨⟨source,i⟩,place,rfl⟩ := List.mem_map.mp member
  have inside : source ∈ sources := (List.mem_zipIdx' place).2 ▸ List.getElem_mem _
  exact ⟨⟨i,rfl⟩,depOf_collected _ target sources ((OrderedDict.get?_eq_some _ _ _).mpr item) source inside⟩

theorem depends_map (f : ι → κ) (nodes : List (CanvasNode φ ι)) (nodeId dep : String) :
    Depends (nodes.map (·.map f)) nodeId dep ↔ Depends nodes nodeId dep := by
  simp [Depends,CanvasNode.map]

theorem clearedInputs_nil (inputs : Inputs φ) : clearedInputs [] inputs = inputs := by
  have all : (inputs.restrict fun k => (inputs.get? k).all fun v => !([] : List String).any (isText · v)) = inputs := by
    refine OrderedDict.ext_items (List.filter_eq_self.mpr fun item _ => ?_)
    cases inputs.get? item.1 <;> simp
  rw [clearedInputs,all]
  refine OrderedDict.mapValues_eq_self fun k v _ => ?_
  split
  · next items => simp
  · rfl

theorem withoutEdges_nil (n : CanvasNode φ (Option (Inputs φ))) : withoutEdges [] n = n := by
  have inputs : (fun object : Option (Inputs φ) => object.map (clearedInputs [])) = id := by
    funext object
    cases object with
    | none => rfl
    | some inputs => exact congrArg some (clearedInputs_nil inputs)
  simp [withoutEdges,goneSources,inputs]

theorem withoutEdges_gone {edges : List DrawnEdge} {e : DrawnEdge} (member : e ∈ edges)
    {n : CanvasNode φ (Option (Inputs φ))} (own : n.id = e.target) :
    e.source ∉ (withoutEdges edges n).dependencies.getD [] := by
  have gone : e.source ∈ goneSources edges n.id :=
    List.mem_map.mpr ⟨e,List.mem_filter.mpr ⟨member,by simp [own]⟩,rfl⟩
  cases deps : n.dependencies <;> simp [withoutEdges,deps,gone]

/-- No removal does what it should, except that of no edges. -/
theorem removesExactly_iff {s : Canvas φ ν} {bp : CanvasBlueprint φ Nat} (loaded : s.blueprint = some bp)
    {edges : List DrawnEdge} (drawn : ∀ e ∈ edges, e ∈ drawnEdges bp) :
    RemovesExactly s bp edges ↔ edges = [] := by
  constructor
  · intro removes
    by_contra some
    obtain ⟨e,member,unread⟩ := exists_unread some fun e member => (mem_drawnEdges (drawn e member)).1
    have others : ∀ id ∈ edges.map (·.id), ¬ReadAs id e.source e.target := by
      intro id inside
      obtain ⟨f,there,rfl⟩ := List.mem_map.mp inside
      exact unread f there
    have stays := removeEdges_depends (s.heap,bp.nodes.getD []) others (mem_drawnEdges (drawn e member)).2
    have ids : edges.map (·.id) ≠ [] := by simpa using some
    have after := removes.after
    simp only [removeEdgesByIds,loaded,if_neg ids,Option.map_some,Option.some.injEq,CanvasBlueprint.map,
      CanvasBlueprint.mk.injEq,and_true] at after
    rw [← depends_map (((edges.map (·.id)).foldl removeEdge (s.heap,bp.nodes.getD [])).1[·]?)] at stays
    obtain ⟨n,inside,own,dep⟩ := stays
    cases nodes : bp.nodes with
    | none => simp [nodes] at after
    | some nodes' =>
      simp only [nodes,Option.map_some,Option.some.injEq,Option.getD_some] at after inside
      rw [after] at inside
      obtain ⟨m,_,rfl⟩ := List.mem_map.mp inside
      exact withoutEdges_gone (n := m) member own dep
  · rintro rfl
    have same : removeEdgesByIds (([] : List DrawnEdge).map (·.id)) s = s := by simp [removeEdgesByIds,loaded]
    have all : withoutEdges ([] : List DrawnEdge) (φ := φ) = id := funext withoutEdges_nil
    refine ⟨?_,fun other _ => by rw [same]⟩
    rw [same,loaded,all]
    simp

/-- One edge, from `a` to `b`. -/
def edgedBlueprint : CanvasBlueprint Unit Nat where
  nodes := some [{ id := "a" },{ id := "b",dependencies := some ["a"],inputs := some 0 }]

def edgedCanvas : Canvas Unit Int := { heap := [.ofList [("in",.str "a")]],blueprint := some edgedBlueprint }

/-- Its removal changes nothing. -/
theorem edgedCanvas_keeps_edge :
    drawnEdges edgedBlueprint = [⟨"a->b-0","a","b"⟩] ∧
      ¬RemovesExactly edgedCanvas edgedBlueprint [⟨"a->b-0","a","b"⟩] := by
  refine ⟨by decide +kernel,fun removes => ?_⟩
  have dependencies := congrArg (Option.map fun bp => (bp.nodes.getD []).map (·.dependencies)) removes.after
  revert dependencies
  decide +kernel

/-- Of no edges nothing is removed. -/
theorem edgedCanvas_keeps_all : RemovesExactly edgedCanvas edgedBlueprint [] :=
  (removesExactly_iff rfl (by simp)).mpr rfl

end IceOS.CanvasStore
