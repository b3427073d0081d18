import IceOS.DependencyGraph
import IceOS.DirectedPaths

/-! What the graph algorithms of networkx promise, and what the cycle check therefore decides. -/
namespace IceOS

open DirectedGraph (SimpleCycle)

/-- `simple_cycles` lists every simple cycle, in some rotation, and nothing else; `has_path` finds every
path; a topological sort raises exactly on a cyclic graph. -/
structure Networkx.Correct (nx : Networkx) : Prop where
  cycles : ∀ g, ∀ c ∈ nx.simpleCycles g, SimpleCycle g.Edge c
  allCycles : ∀ g c, SimpleCycle g.Edge c → ∃ listed ∈ nx.simpleCycles g, listed ~r c
  paths : ∀ g u v, u ∈ g.nodes → u = v ∨ g.Reaches u v → nx.hasPath g u v = true
  unfeasible : ∀ g, (nx.topologicalSort g).2 = true ↔ ¬g.Acyclic

namespace Networkx

theorem getLast?_walked {path : List String} (first : String) (walked : path ≠ []) :
    path.getLast? = some (path.getLastD first) := by
  rw [List.getLastD_eq_getLast?,List.getLast?_eq_some_getLast walked]
  rfl

theorem cyclesFrom_sound {g : DirectedGraph String} {first : String} {allowed : List String} {fuel : Nat}
    {path c : List String} (nodup : path.Nodup) (chain : path.IsChain g.Edge) (start : path.head? = some first)
    (found : c ∈ cyclesFrom g first allowed fuel path) : SimpleCycle g.Edge c := by
  induction fuel generalizing path with
  | zero => cases found
  | succ fuel ih =>
    have walked : path ≠ [] := fun none => by simp [none] at start
    have last := getLast?_walked first walked
    rcases List.mem_append.mp found with here | later
    · split at here
      · next back =>
        rw [List.mem_singleton.mp here]
        refine ⟨walked,nodup,chain,fun u ends v starts => ?_⟩
        rw [last] at ends
        rw [start] at starts
        cases ends
        cases starts
        exact (g.mem_successors _ _).mp back
      · cases here
    · obtain ⟨v,next,found⟩ := List.mem_flatMap.mp later
      simp only [List.mem_filter,DirectedGraph.mem_successors,decide_eq_true_eq] at next
      refine ih ?_ ?_ ?_ found
      · exact List.nodup_append.mpr ⟨nodup,List.nodup_singleton v,fun a inside b single same =>
          next.2.2 (List.mem_singleton.mp single ▸ same ▸ inside)⟩
      · refine chain.append (.singleton v) fun u ends w starts => ?_
        rw [last] at ends
        cases ends
        cases starts
        exact next.1
      · rw [List.head?_append,start]
        rfl

theorem cyclesFrom_complete {g : DirectedGraph String} {first : String} {allowed : List String} {fuel : Nat}
    {path rest : List String} (walked : path ≠ []) (nodup : (path ++ rest).Nodup)
    (chain : (path ++ rest).IsChain g.Edge) (inside : ∀ v ∈ rest, v ∈ allowed)
    (closes : ∀ u ∈ (path ++ rest).getLast?, g.Edge u first) (enough : rest.length < fuel) :
    path ++ rest ∈ cyclesFrom g first allowed fuel path := by
  induction rest generalizing path fuel with
  | nil =>
    obtain ⟨fuel,rfl⟩ := Nat.exists_eq_succ_of_ne_zero (Nat.ne_zero_of_lt enough)
    rw [List.append_nil] at closes ⊢
    have back := closes (path.getLastD first) (getLast?_walked first walked)
    refine List.mem_append_left _ ?_
    rw [if_pos ((g.mem_successors _ _).mpr back)]
    exact List.mem_singleton_self path
  | cons v rest ih =>
    obtain ⟨fuel,rfl⟩ := Nat.exists_eq_succ_of_ne_zero (Nat.ne_zero_of_lt enough)
    have split : path ++ v :: rest = path ++ [v] ++ rest := by simp
    have last := getLast?_walked first walked
    refine List.mem_append_right _ (List.mem_flatMap.mpr ⟨v,?_,?_⟩)
    · have edge := (List.isChain_append.mp chain).2.2 _ last v rfl
      have new : v ∉ path := fun old => (List.nodup_append.mp nodup).2.2 v old v List.mem_cons_self rfl
      simp only [List.mem_filter,DirectedGraph.mem_successors,decide_eq_true_eq]
      exact ⟨edge,inside v List.mem_cons_self,new⟩
    · rw [split] at nodup chain closes ⊢
      exact ih (by simp) nodup chain (fun w member => inside w (List.mem_cons_of_mem v member)) closes
        (by simpa using enough)

/-- Every simple cycle is found from the node of it that was added first. -/
theorem direct_allCycles (g : DirectedGraph String) {c : List String} (cycle : SimpleCycle g.Edge c) :
    ∃ listed ∈ direct.simpleCycles g, listed ~r c := by
  obtain ⟨n,member,least⟩ := c.toFinset.exists_min_image g.nodes.idxOf (List.toFinset_nonempty_iff c |>.mpr cycle.some)
  obtain ⟨front,back,rfl⟩ := List.append_of_mem (List.mem_toFinset.mp member)
  have turned : SimpleCycle g.Edge (n :: (back ++ front)) := by
    have rotated := cycle.rotate
    rwa [List.cons_append] at rotated
  have nodes (v : String) (inside : v ∈ front ++ n :: back) : v ∈ g.nodes := by
    obtain ⟨w,edge,_⟩ := Relation.TransGen.head'_iff.mp (cycle.reaches inside)
    exact (g.closed _ edge).1
  have here : n ∈ g.nodes := nodes n (by simp)
  refine ⟨n :: (back ++ front),?_,List.isRotated_append (l := n :: back)⟩
  simp only [direct,List.mem_flatMap]
  refine ⟨(n,g.nodes.idxOf n),List.mem_zipIdx_iff_getElem?.mpr ?_,?_⟩
  · exact List.getElem?_idxOf here
  · have short := g.path_length here turned.chain turned.nodup
    refine cyclesFrom_complete (List.cons_ne_nil n []) turned.nodup turned.chain ?_ ?_ ?_
    · intro v later
      have inside : v ∈ front ++ n :: back := by
        rcases List.mem_append.mp later with behind | before
        · exact List.mem_append_right _ (List.mem_cons_of_mem n behind)
        · exact List.mem_append_left _ before
      have above := least v (List.mem_toFinset.mpr inside)
      have other : n ≠ v := fun same => (List.nodup_cons.mp turned.nodup).1 (same ▸ later)
      have apart : g.nodes.idxOf n ≠ g.nodes.idxOf v := fun same => other ((List.idxOf_inj here).mp same)
      refine List.mem_drop_iff_getElem.mpr ⟨g.nodes.idxOf v - (g.nodes.idxOf n + 1),?_,?_⟩
      · have bound := List.idxOf_lt_length_of_mem (nodes v inside)
        omega
      · have bound := List.idxOf_lt_length_of_mem (nodes v inside)
        have position : g.nodes.idxOf n + 1 + (g.nodes.idxOf v - (g.nodes.idxOf n + 1)) = g.nodes.idxOf v := by omega
        simp only [position]
        exact List.getElem_idxOf bound
    · intro u ends
      exact turned.closes u ends n rfl
    · exact Nat.lt_of_succ_le short

theorem direct_correct : direct.Correct where
  cycles g c listed := by
    obtain ⟨⟨n,i⟩,_,found⟩ := List.mem_flatMap.mp listed
    exact cyclesFrom_sound (List.nodup_singleton n) (.singleton n) rfl found
  allCycles g c cycle := direct_allCycles g cycle
  paths g u v inside path := by
    have walk : Relation.ReflTransGen g.Edge u v := by
      rcases path with rfl | path
      · exact .refl
      · exact path.to_reflTransGen
    obtain ⟨p,chain,nodup,last⟩ := DirectedGraph.exists_simplePath walk
    have short := g.path_length inside chain nodup
    exact decide_eq_true (g.spread_complete chain last (Nat.le_of_succ_le short) (List.mem_singleton_self u))
  unfeasible g := by
    simp only [direct,decide_eq_true_eq]
    exact (g.generations_length).not

end Networkx

namespace DependencyGraph

/-- The recursive nodes by id, as the cycle check files them. -/
def recursiveMap (nodes : List NodeConfig) : OrderedDict String NodeConfig :=
  .ofList ((nodes.filter (·.type = .recursive)).map fun node => (node.id,node))

theorem mem_recursiveMap (nodes : List NodeConfig) (id : String) :
    id ∈ (recursiveMap nodes).keys ↔ id ∈ recursiveIds nodes := by
  simp [recursiveMap,recursiveIds]

/-- Whether a cycle is valid does not depend on where it is entered. -/
theorem isValidRecursiveCycle_iff (recursiveNodes : OrderedDict String NodeConfig) (c : List String) :
    isValidRecursiveCycle recursiveNodes c = true ↔
      (∃ id ∈ c, id ∈ recursiveNodes.keys) ∧ ∀ id ∈ c, id ∈ recursiveNodes.keys →
        ∃ other ∈ c, other ≠ id ∧ other ∈ ((recursiveNodes.get? id).map (·.recursiveSources)).getD [] := by
  have some (ids : List String) : (!ids.isEmpty) = true ↔ ∃ id, id ∈ ids := by
    cases ids <;> simp
  simp only [isValidRecursiveCycle,Bool.and_eq_true,some,List.mem_filter,List.all_eq_true,List.any_eq_true,
    decide_eq_true_eq,List.contains_iff_mem]
  constructor
  · rintro ⟨⟨id,member,recursive⟩,all⟩
    refine ⟨⟨id,member,recursive⟩,fun id member recursive => ?_⟩
    obtain ⟨other,⟨inside,apart⟩,source⟩ := all id ⟨member,recursive⟩
    exact ⟨other,inside,apart,source⟩
  · rintro ⟨⟨id,member,recursive⟩,all⟩
    refine ⟨⟨id,member,recursive⟩,fun id both => ?_⟩
    obtain ⟨other,inside,apart,source⟩ := all id both.1 both.2
    exact ⟨other,⟨inside,apart⟩,source⟩

theorem isValidRecursiveCycle_rotated (recursiveNodes : OrderedDict String NodeConfig) {c d : List String}
    (turned : c ~r d) : isValidRecursiveCycle recursiveNodes c = isValidRecursiveCycle recursiveNodes d := by
  rw [Bool.eq_iff_iff,isValidRecursiveCycle_iff,isValidRecursiveCycle_iff]
  simp only [turned.mem_iff]

theorem forM_ok {step : List String → Except Exn Unit} (cycles : List (List String)) :
    cycles.forM step = .ok () ↔ ∀ c ∈ cycles, step c = .ok () := by
  induction cycles with
  | nil => simp [pure,Except.pure]
  | cons c rest ih =>
    have first : (c :: rest).forM step = step c >>= fun _ => rest.forM step := rfl
    rw [first,List.forall_mem_cons,← ih]
    cases step c with
    | error e => simp [bind,Except.bind]
    | ok => simp [bind,Except.bind]

/-- The cycle check accepts a graph whose simple cycles are all valid. -/
theorem checkCycles_iff {nx : Networkx} (correct : nx.Correct) (nodes : List NodeConfig) (g : DirectedGraph String) :
    checkCycles nx nodes g = .ok () ↔
      ∀ c, SimpleCycle g.Edge c → isValidRecursiveCycle (recursiveMap nodes) c = true := by
  simp only [checkCycles]
  rw [forM_ok]
  have valid (c : List String) (e : Exn) : (if isValidRecursiveCycle (recursiveMap nodes) c = true then
      (Except.ok () : Except Exn Unit) else .error e) = .ok () ↔ isValidRecursiveCycle (recursiveMap nodes) c = true := by
    cases isValidRecursiveCycle (recursiveMap nodes) c <;> simp
  constructor
  · intro all c cycle
    obtain ⟨listed,member,turned⟩ := correct.allCycles g c cycle
    rw [← isValidRecursiveCycle_rotated _ turned]
    exact (valid listed _).mp (all listed member)
  · intro all c member
    exact (valid c _).mpr (all c (correct.cycles g c member))

/-- On an accepted graph every cycle has a recursive node. -/
theorem accepted_guarded {nx : Networkx} (correct : nx.Correct) {nodes : List NodeConfig} {g : DirectedGraph String}
    (accepted : checkCycles nx nodes g = .ok ()) (n : String) :
    ¬Relation.TransGen (fun u v => g.Edge u v ∧ u ∉ recursiveIds nodes ∧ v ∉ recursiveIds nodes) n n := by
  intro cycle
  obtain ⟨c,simple,_⟩ := DirectedGraph.exists_simpleCycle cycle
  have valid := (checkCycles_iff correct nodes g).mp accepted c (simple.mono fun u v edge => edge.1)
  obtain ⟨⟨id,member,recursive⟩,_⟩ := (isValidRecursiveCycle_iff _ c).mp valid
  obtain ⟨v,edge,_⟩ := Relation.TransGen.head'_iff.mp (simple.reaches member)
  exact edge.2.1 ((mem_recursiveMap nodes id).mp recursive)

end DependencyGraph

end IceOS
