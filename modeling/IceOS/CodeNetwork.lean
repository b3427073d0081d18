import IceOS.SaveRestore

/-! The network block of code nodes: the functions of the `socket` module while code nodes overlap. -/
namespace IceOS.CodeNetwork

open SaveRestore (State Action Served)

variable {ι : Type} [DecidableEq ι]

/-- What `socket.socket` or `socket.create_connection` is: the function of the library, or the one with
which a node replaced it, which raises. -/
inductive SocketFunction (ι : Type) where
  | original
  | blocked (by_ : ι)
  deriving DecidableEq, Repr

structure SocketModule (ι : Type) where
  socket : SocketFunction ι := .original
  createConnection : SocketFunction ι := .original
  deriving DecidableEq, Repr

/-- The fields of a node that grant it the network. -/
structure CodeNode where
  tags : Option (List String) := none
  networkAllowed : Bool := false

def CodeNode.netAllowed (cfg : CodeNode) : Bool := cfg.tags.any (·.contains "net-allow") || cfg.networkAllowed

variable (node : ι → CodeNode)

/-- What a node leaves in the module before its code runs. -/
def patch (i : ι) (m : SocketModule ι) : SocketModule ι :=
  if (node i).netAllowed then m else ⟨.blocked i,.blocked i⟩

/-- The node saves both functions, and puts both back when it ends in any way; its code runs in between,
interleaved with other nodes at its awaits. -/
def step (s : State ι (SocketModule ι)) : Action ι → Option (State ι (SocketModule ι))
  | .enter i =>
    match s.saved i with
    | none => some ⟨patch node i s.cell,Function.update s.saved i (some s.cell)⟩
    | some _ => some s
  | .leave i =>
    match s.saved i with
    | none => some s
    | some orig => some ⟨⟨orig.socket,orig.createConnection⟩,Function.update s.saved i none⟩

def Blocks (m : SocketModule ι) : Prop := m.socket ≠ .original ∧ m.createConnection ≠ .original

/-- The code of a node may run on this module. -/
def Suits (i : ι) (m : SocketModule ι) : Prop := if (node i).netAllowed then m = {} else Blocks m

/-- Whichever node under way runs its code, it is blocked just if it has no permission; with no node under way
the functions are the original ones. -/
def Policed (s : State ι (SocketModule ι)) : Prop :=
  (∀ i, s.Active i → Suits node i s.cell) ∧ ((∀ i, ¬s.Active i) → s.cell = {})

/-- Nodes overlap only with nodes of the same permission, and a blocked node that found the network open is the
last one to end. -/
def SamePermission (s : State ι (SocketModule ι)) : Action ι → Prop
  | .enter i => s.saved i = none → ∀ j, s.Active j → (node j).netAllowed = (node i).netAllowed
  | .leave i => (node i).netAllowed = false → s.saved i = some {} → ∀ j, j ≠ i → ¬s.Active j

theorem step_eq : step node = SaveRestore.step (patch node) := by
  funext s a
  cases a with
  | enter i => cases known : s.saved i <;> simp only [step,SaveRestore.step,known]
  | leave i => cases known : s.saved i <;> simp only [step,SaveRestore.step,known]

omit [DecidableEq ι] in
theorem served_iff_policed (s : State ι (SocketModule ι)) : Served (Suits node) {} s ↔ Policed node s :=
  ⟨fun served => ⟨served.fits,served.first⟩,fun policed => ⟨policed.1,policed.2⟩⟩

omit [DecidableEq ι] in
/-- No module suits nodes of different permission. -/
theorem Suits.same {i j : ι} {m : SocketModule ι} (first : Suits node i m) (second : Suits node j m) :
    (node i).netAllowed = (node j).netAllowed := by
  unfold Suits at first second
  cases hi : (node i).netAllowed <;> cases hj : (node j).netAllowed <;> simp_all [Blocks]

omit [DecidableEq ι] in
theorem Suits.of_same {i j : ι} {m : SocketModule ι} (suits : Suits node i m)
    (same : (node i).netAllowed = (node j).netAllowed) : Suits node j m := by
  unfold Suits at suits ⊢
  rwa [← same]

omit [DecidableEq ι] in
theorem suits_patch {i : ι} {m : SocketModule ι} (suits : (node i).netAllowed = true → m = {}) :
    Suits node i (patch node i m) := by
  unfold Suits patch
  cases allowed : (node i).netAllowed with
  | true => simpa using suits allowed
  | false => simp [Blocks]

/-- What the nodes under way found on entry: the original functions, or a block that concerned them too; some node
found the original ones. -/
structure Policing (s : State ι (SocketModule ι)) : Prop where
  served : Served (Suits node) {} s
  found : ∀ i m, s.saved i = some m → m = {} ∨ (node i).netAllowed = false ∧ Blocks m
  opener : ∀ i, s.Active i → ∃ j, s.saved j = some {}

omit [DecidableEq ι] in
theorem policing_start : Policing node ⟨{},fun _ => none⟩ where
  served := SaveRestore.served_start
  found := nofun
  opener := fun _ active => absurd rfl active

omit [DecidableEq ι] in
theorem Policing.same {s : State ι (SocketModule ι)} (inv : Policing node s) {i j : ι} (first : s.Active i)
    (second : s.Active j) : (node i).netAllowed = (node j).netAllowed :=
  (inv.served.fits i first).same node (inv.served.fits j second)

omit [DecidableEq ι] in
/-- On entry a node finds the network open unless blocked nodes are under way. -/
theorem Policing.entry {s : State ι (SocketModule ι)} (inv : Policing node s) (i : ι)
    (same : ∀ j, s.Active j → (node j).netAllowed = (node i).netAllowed) :
    s.cell = {} ∨ (node i).netAllowed = false ∧ Blocks s.cell := by
  by_cases idle : ∀ j, ¬s.Active j
  · exact .inl (inv.served.first idle)
  · obtain ⟨j,active⟩ := not_forall_not.mp idle
    have suits := inv.served.fits j active
    rw [Suits,same j active] at suits
    cases allowed : (node i).netAllowed with
    | true => exact .inl (by simpa [allowed] using suits)
    | false => exact .inr ⟨rfl,by simpa [allowed] using suits⟩

omit [DecidableEq ι] in
theorem Policing.careful_enter_iff {s : State ι (SocketModule ι)} (inv : Policing node s) (i : ι) :
    SaveRestore.Careful (patch node) (Suits node) {} s (.enter i) ↔ SamePermission node s (.enter i) := by
  refine forall_congr' fun _ => ?_
  constructor
  · rintro ⟨own,others⟩ j active
    exact (others j active).same node own
  · intro same
    have own : Suits node i (patch node i s.cell) := by
      refine suits_patch node fun allowed => ?_
      rcases inv.entry node i same with fresh | ⟨blocked,-⟩
      · exact fresh
      · rw [allowed] at blocked
        contradiction
    exact ⟨own,fun j active => own.of_same node (same j active).symm⟩

omit [DecidableEq ι] in
theorem Policing.careful_leave_iff {s : State ι (SocketModule ι)} (inv : Policing node s) (i : ι) :
    SaveRestore.Careful (patch node) (Suits node) {} s (.leave i) ↔ SamePermission node s (.leave i) := by
  constructor
  · intro careful blocked known j other active
    have suits := (careful {} known).1 j other active
    have same := inv.same node active (State.active_of_saved known)
    rw [Suits,same,blocked] at suits
    exact absurd rfl suits.1
  · intro last c known
    have known : s.saved i = some c := known
    have active : s.Active i := State.active_of_saved known
    rcases inv.found i c known with rfl | ⟨blocked,blocks⟩
    · refine ⟨fun j other underWay => ?_,fun _ => rfl⟩
      cases allowed : (node i).netAllowed with
      | true =>
        rw [Suits,inv.same node underWay active,allowed]
        rfl
      | false => exact absurd underWay (last allowed known j other)
    · refine ⟨fun j other underWay => ?_,fun idle => ?_⟩
      · rw [Suits,inv.same node underWay active,blocked]
        exact blocks
      · obtain ⟨j,opener⟩ := inv.opener i active
        by_cases same : j = i
        · rw [same,known] at opener
          exact Option.some.inj opener
        · exact absurd (State.active_of_saved opener) (idle j same)

omit [DecidableEq ι] in
theorem Policing.careful_iff {s : State ι (SocketModule ι)} (inv : Policing node s) (a : Action ι) :
    SaveRestore.Careful (patch node) (Suits node) {} s a ↔ SamePermission node s a := by
  cases a with
  | enter i => exact inv.careful_enter_iff node i
  | leave i => exact inv.careful_leave_iff node i

theorem Policing.step {s t : State ι (SocketModule ι)} {a : Action ι} (inv : Policing node s)
    (good : SamePermission node s a) (stepped : SaveRestore.step (patch node) s a = some t) : Policing node t := by
  have served := (SaveRestore.served_iff inv.served stepped).mpr ((inv.careful_iff node a).mpr good)
  rcases SaveRestore.step_cases stepped with rfl | ⟨i,rfl,fresh,rfl⟩ | ⟨i,c,rfl,known,rfl⟩
  · exact inv
  · have entry := inv.entry node i (good fresh)
    refine ⟨served,fun j m here => ?_,fun j active => ?_⟩
    · by_cases same : j = i
      · subst same
        obtain rfl : s.cell = m := by simpa using here
        exact entry
      · exact inv.found j m (by simpa [same] using here)
    · by_cases idle : ∀ k, ¬s.Active k
      · exact ⟨i,by simpa using inv.served.first idle⟩
      · obtain ⟨k,underWay⟩ := not_forall_not.mp idle
        obtain ⟨opener,found⟩ := inv.opener k underWay
        refine ⟨opener,?_⟩
        have other : opener ≠ i := fun same => by
          rw [same,fresh] at found
          contradiction
        simpa [other] using found
  · have active : s.Active i := State.active_of_saved known
    refine ⟨served,fun j m here => ?_,fun j stays => ?_⟩
    · by_cases same : j = i
      · subst same
        simp at here
      · exact inv.found j m (by simpa [same] using here)
    · obtain ⟨other,underWay⟩ := (SaveRestore.active_update_none _ _ i j).mp stays
      obtain ⟨opener,found⟩ := inv.opener i active
      by_cases same : opener = i
      · -- the opener ends while another node is under way, so both have the network
        subst same
        have allowed : (node opener).netAllowed = true := by
          by_contra blocked
          exact good (Bool.eq_false_iff.mpr blocked) found j other underWay
        obtain ⟨m,holds⟩ := Option.ne_none_iff_exists'.mp underWay
        rcases inv.found j m holds with rfl | ⟨blocked,-⟩
        · exact ⟨j,by simpa [other] using holds⟩
        · rw [inv.same node underWay active,allowed] at blocked
          contradiction
      · exact ⟨opener,by simpa [same] using found⟩

/-- The network is blocked for exactly the nodes without permission all along the runs in which nodes of one
permission overlap and the one that found the network open ends last, and along no others. -/
theorem policed_throughout_iff (actions : List (Action ι)) :
    (∀ begun rest u, actions = begun ++ rest →
      ActionRuns.run (step node) begun ⟨{},fun _ => none⟩ = some u → Policed node u) ↔
      ActionRuns.Throughout (step node) (SamePermission node) actions ⟨{},fun _ => none⟩ := by
  rw [step_eq]
  have exactly (s : State ι (SocketModule ι)) (a : Action ι) (t : State ι (SocketModule ι)) (inv : Policing node s)
      (stepped : SaveRestore.step (patch node) s a = some t) : Policed node t ↔ SamePermission node s a := by
    rw [← served_iff_policed,SaveRestore.served_iff inv.served stepped,inv.careful_iff]
  have stays (s : State ι (SocketModule ι)) (a : Action ι) (t : State ι (SocketModule ι)) (inv : Policing node s)
      (good : SamePermission node s a) (stepped : SaveRestore.step (patch node) s a = some t) : Policing node t :=
    inv.step node good stepped
  have enabled (s : State ι (SocketModule ι)) (a : Action ι) : ∃ t, SaveRestore.step (patch node) s a = some t :=
    SaveRestore.step_total _ s a
  obtain ⟨t,ran⟩ := ActionRuns.run_total enabled actions ⟨{},fun _ => none⟩
  exact ActionRuns.throughout_iff_of_strong exactly stays ran (policing_start node)
    ((served_iff_policed node _).mp SaveRestore.served_start)

/-- Of two nodes without permission the first ends before the second, whose code then has the network. -/
theorem overlap_opens_network : ¬∀ (node : Fin 2 → CodeNode) actions begun rest u, actions = begun ++ rest →
    ActionRuns.run (step node) begun ⟨{},fun _ => none⟩ = some u → Policed node u := by
  intro always
  have policed := always (fun _ => {}) [.enter 0,.enter 1,.leave 0] _ [] _ (List.append_nil _).symm rfl
  exact (policed.1 1 (State.active_of_saved rfl)).1 rfl

end IceOS.CodeNetwork
