import Mathlib.Data.List.Induction
import Mathlib.Data.String.Basic
import IceOS.OrderedDict

/-! The event streams of the in-process Redis stub, and a reader that follows one of them by the last
id it was given. -/
namespace IceOS.EventStream

variable {δ : Type}

/-- An id with the data that was added under it. -/
abbrev Entry (δ : Type) := String × δ

abbrev Streams (δ : Type) := OrderedDict String (List (Entry δ))

def entries (s : Streams δ) (stream : String) : List (Entry δ) := (s.get? stream).getD []

/-- The id of the entry that finds `n` others in its stream. -/
def entryId (n : Nat) : String := toString n ++ "-0"

def xadd (s : Streams δ) (stream : String) (data : δ) : String × Streams δ :=
  let lst := entries s stream
  let id := entryId lst.length
  (id,s.set stream (lst ++ [(id,data)]))

/-- A count that is missing or zero sets no bound. -/
def counted (count : Option Int) (n : Nat) : Bool :=
  match count with
  | none => false
  | some most => most ≠ 0 && most ≤ n

/-- The ids are compared as strings. -/
def collect (last : String) (count : Option Int) (got : List (Entry δ)) : List (Entry δ) → List (Entry δ)
  | [] => got
  | entry :: rest =>
    if last < entry.1 then
      let got := got ++ [entry]
      if counted count got.length then got else collect last count got rest
    else collect last count got rest

def xread (s : Streams δ) (streams : List (String × String)) (count : Option Int) :
    List (String × List (Entry δ)) :=
  streams.filterMap fun asked =>
    let found := collect asked.2 count [] (entries s asked.1)
    if found.isEmpty then none else some (asked.1,found)

/-! ### The reader -/

structure Reader (δ : Type) where
  last : String := "0-0"
  received : List (Entry δ) := []

def Reader.receive (r : Reader δ) (entry : Entry δ) : Reader δ where
  last := entry.1
  received := r.received ++ [entry]

/-- One round of the reader's loop. -/
def Reader.read (r : Reader δ) (s : Streams δ) (stream : String) (count : Option Int) : Reader δ :=
  (xread s [(stream,r.last)] count).foldl (fun r batch => batch.2.foldl Reader.receive r) r

inductive Action (δ : Type)
  | add (stream : String) (data : δ)
  | read

structure State (δ : Type) where
  streams : Streams δ := .empty
  reader : Reader δ := {}

def step (stream : String) (count : Option Int) (s : State δ) : Action δ → State δ
  | .add target data => { s with streams := (xadd s.streams target data).2 }
  | .read => { s with reader := s.reader.read s.streams stream count }

def run (stream : String) (count : Option Int) (s : State δ) (actions : List (Action δ)) : State δ :=
  actions.foldl (step stream count) s

/-- The data that is added to the stream. -/
def added (stream : String) : List (Action δ) → List δ
  | [] => []
  | .add target data :: rest => if target = stream then data :: added stream rest else added stream rest
  | .read :: rest => added stream rest

/-- The entries that hold the data, under the ids that the calls return. -/
def numbered (data : List δ) : List (Entry δ) := data.zipIdx.map fun item => (entryId item.2,item.1)

/-- However the reads fall between the additions, in the end the reader has every event once, in order. -/
def Delivers (stream : String) (count : Option Int) (actions : List (Action δ)) : Prop :=
  ∃ enough, ∀ more, (run stream count {} (actions ++ List.replicate (enough + more) .read)).reader.received =
    numbered (added stream actions)

/-! ### What a read finds -/

theorem collect_append (last : String) (count : Option Int) (got list : List (Entry δ)) :
    ∃ found, collect last count got list = got ++ found ∧ ∀ entry ∈ found, last < entry.1 := by
  induction list generalizing got with
  | nil => exact ⟨[],(List.append_nil got).symm,fun entry none => by cases none⟩
  | cons entry rest ih =>
    simp only [collect]
    by_cases later : last < entry.1
    · rw [if_pos later]
      split
      · exact ⟨[entry],rfl,fun other same => (List.mem_singleton.mp same) ▸ later⟩
      · obtain ⟨found,all,above⟩ := ih (got ++ [entry])
        exact ⟨entry :: found,by rw [all,List.append_assoc]; rfl,List.forall_mem_cons.mpr ⟨later,above⟩⟩
    · rw [if_neg later]
      exact ih got

theorem receive_all (r : Reader δ) (found : List (Entry δ)) :
    found.foldl Reader.receive r =
      { last := (found.getLast?.map Prod.fst).getD r.last,received := r.received ++ found } := by
  induction found generalizing r with
  | nil => simp
  | cons entry rest ih =>
    rw [List.foldl_cons,ih]
    cases rest with
    | nil => simp [Reader.receive]
    | cons next rest => simp [Reader.receive,List.getLast?_cons]

theorem read_eq (r : Reader δ) (s : Streams δ) (stream : String) (count : Option Int) :
    r.read s stream count = (collect r.last count [] (entries s stream)).foldl Reader.receive r := by
  simp only [Reader.read,xread,List.filterMap_cons,List.filterMap_nil]
  cases found : collect r.last count [] (entries s stream) with
  | nil => rfl
  | cons entry rest => rfl

/-! ### The ids of a stream -/

theorem entries_xadd (s : Streams δ) (target stream : String) (data : δ) : entries (xadd s target data).2 stream =
    if target = stream then entries s stream ++ [(entryId (entries s stream).length,data)] else entries s stream := by
  simp only [xadd,entries,OrderedDict.get?_set]
  split
  · next same => rw [same]; rfl
  · rfl

theorem numbered_append (data : List δ) (d : δ) : numbered (data ++ [d]) = numbered data ++ [(entryId data.length,d)] := by
  simp [numbered,List.zipIdx_append]

@[simp] theorem length_numbered (data : List δ) : (numbered data).length = data.length := by simp [numbered]

theorem added_append (stream : String) (actions more : List (Action δ)) :
    added stream (actions ++ more) = added stream actions ++ added stream more := by
  induction actions with
  | nil => rfl
  | cons action rest ih =>
    cases action with
    | add target data =>
      simp only [List.cons_append,added,ih]
      split <;> rfl
    | read => exact ih

theorem added_reads (stream : String) (n : Nat) : added stream (List.replicate n (.read : Action δ)) = [] := by
  induction n with
  | zero => rfl
  | succ n ih => exact ih

theorem run_append (stream : String) (count : Option Int) (s : State δ) (actions more : List (Action δ)) :
    run stream count s (actions ++ more) = run stream count (run stream count s actions) more :=
  List.foldl_append

/-- The stream holds what was added to it, whatever else was added or read in between. -/
theorem run_entries (stream : String) (count : Option Int) (actions : List (Action δ)) :
    entries (run stream count {} actions).streams stream = numbered (added stream actions) := by
  induction actions using List.reverseRecOn with
  | nil => rfl
  | append_singleton before action ih =>
    rw [run_append,added_append]
    cases action with
    | add target data =>
      simp only [run,List.foldl_cons,List.foldl_nil,step,entries_xadd,added]
      simp only [run] at ih
      split
      · rw [ih,numbered_append,length_numbered]
      · rw [ih,List.append_nil]
    | read =>
      simp only [added,List.append_nil]
      exact ih

/-! ### The first event -/

/-- The reader never goes back before the id that it starts from, which is the id of the first event. -/
structure Beyond (r : Reader δ) : Prop where
  last : entryId 0 ≤ r.last
  received : ∀ entry ∈ r.received, entryId 0 < entry.1

theorem Beyond.read {r : Reader δ} (beyond : Beyond r) (s : Streams δ) (stream : String) (count : Option Int) :
    Beyond (r.read s stream count) := by
  obtain ⟨found,all,above⟩ := collect_append r.last count [] (entries s stream)
  rw [read_eq,all,List.nil_append,receive_all]
  have later : ∀ entry ∈ found, entryId 0 < entry.1 := fun entry member => lt_of_le_of_lt beyond.last (above entry member)
  constructor
  · cases ends : found.getLast? with
    | none => exact beyond.last
    | some entry => exact (later entry (List.mem_of_getLast? ends)).le
  · intro entry member
    rcases List.mem_append.mp member with old | new
    · exact beyond.received entry old
    · exact later entry new

theorem run_beyond (stream : String) (count : Option Int) (actions : List (Action δ)) :
    Beyond (run stream count {} actions).reader := by
  induction actions using List.reverseRecOn with
  | nil => exact { last := le_refl "0-0",received := fun entry none => by cases none }
  | append_singleton before action ih =>
    rw [run_append]
    cases action with
    | add target data => exact ih
    | read => exact ih.read _ stream count

theorem run_nothing (stream : String) (count : Option Int) {actions : List (Action δ)}
    (quiet : added stream actions = []) : (run stream count {} actions).reader.received = [] := by
  induction actions using List.reverseRecOn with
  | nil => rfl
  | append_singleton before action ih =>
    rw [added_append] at quiet
    obtain ⟨before_quiet,-⟩ := List.append_eq_nil_iff.mp quiet
    rw [run_append]
    cases action with
    | add target data => exact ih before_quiet
    | read =>
      have empty := run_entries stream count before
      rw [before_quiet] at empty
      change ((run stream count {} before).reader.read (run stream count {} before).streams stream count).received = []
      rw [read_eq,empty]
      exact ih before_quiet

/-- The first event has the id that the reader starts from, so it is never received. -/
theorem quiet_of_delivers {stream : String} {count : Option Int} {actions : List (Action δ)}
    (delivers : Delivers stream count actions) : added stream actions = [] := by
  obtain ⟨enough,all⟩ := delivers
  have received := all 0
  have beyond := run_beyond stream count (actions ++ List.replicate (enough + 0) .read)
  cases events : added stream actions with
  | nil => rfl
  | cons first rest =>
    rw [events] at received
    have member : (entryId 0,first) ∈ numbered (first :: rest) := by simp [numbered]
    rw [← received] at member
    exact absurd (beyond.received _ member) (lt_irrefl _)

/-- The reader gets every event exactly of the streams to which nothing is added. -/
theorem delivers_iff (stream : String) (count : Option Int) (actions : List (Action δ)) :
    Delivers stream count actions ↔ added stream actions = [] := by
  refine ⟨quiet_of_delivers,fun quiet => ⟨0,fun more => ?_⟩⟩
  rw [quiet]
  refine run_nothing stream count ?_
  rw [added_append,quiet,added_reads]
  rfl

/-! ### The other events

As long as the counters have one digit the ids are in the order of the additions. -/

theorem entryId_lt {i j : Nat} (left : i < 10) (right : j < 10) : entryId i < entryId j ↔ i < j := by
  have table : ∀ i < 10, ∀ j < 10, (entryId i < entryId j ↔ i < j) := by decide +kernel
  exact table i left j right

theorem numbered_getElem? (data : List δ) (i : Nat) : (numbered data)[i]? = data[i]?.map fun d => (entryId i,d) := by
  simp only [numbered,List.getElem?_map,List.getElem?_zipIdx,Option.map_map]
  cases data[i]? with
  | none => rfl
  | some d => simp

/-- What the counter of an entry of a list with at most ten says about its place. -/
theorem numbered_id {data : List δ} {i : Nat} {entry : Entry δ} (found : (numbered data)[i]? = some entry) :
    i < data.length ∧ entry.1 = entryId i := by
  rw [numbered_getElem?,Option.map_eq_some_iff] at found
  obtain ⟨d,at_i,rfl⟩ := found
  exact ⟨(List.getElem?_eq_some_iff.mp at_i).1,rfl⟩

/-- Where the entries up to some place are not above the id and the others are, a read finds the next of
these. -/
theorem collect_sorted {last : String} (count : Option Int) (got : List (Entry δ)) {front back : List (Entry δ)}
    (old : ∀ entry ∈ front, ¬last < entry.1) (new : ∀ entry ∈ back, last < entry.1) :
    ∃ m, 0 < m ∧ collect last count got (front ++ back) = got ++ back.take m := by
  induction front with
  | cons entry rest ih =>
    obtain ⟨here,later⟩ := List.forall_mem_cons.mp old
    obtain ⟨m,some,found⟩ := ih later
    exact ⟨m,some,by rw [List.cons_append,collect,if_neg here,found]⟩
  | nil =>
    rw [List.nil_append]
    induction back generalizing got with
    | nil => exact ⟨1,Nat.one_pos,(List.append_nil got).symm⟩
    | cons entry rest ih =>
      obtain ⟨here,later⟩ := List.forall_mem_cons.mp new
      simp only [collect,if_pos here]
      split
      · exact ⟨1,Nat.one_pos,rfl⟩
      · obtain ⟨m,-,found⟩ := ih (got ++ [entry]) later
        exact ⟨m + 1,Nat.succ_pos m,by rw [found,List.append_assoc]; rfl⟩

/-- The reader has the first `n` events behind the first. -/
structure Follows (events : List (Entry δ)) (r : Reader δ) (n : Nat) : Prop where
  bound : n ≤ events.tail.length
  last : r.last = entryId n
  received : r.received = events.tail.take n

theorem length_tail_numbered (data : List δ) : (numbered data).tail.length = data.length - 1 := by
  rw [List.length_tail,length_numbered]

/-- The last of the next few entries has the counter of its place. -/
theorem last_id (data : List δ) (n k : Nat) :
    ((((numbered data).tail.drop n).take k).getLast?.map Prod.fst).getD (entryId n) =
      entryId (n + (((numbered data).tail.drop n).take k).length) := by
  cases length : (((numbered data).tail.drop n).take k).length with
  | zero => rw [List.length_eq_zero_iff.mp length]; rfl
  | succ j =>
    have inside : j < k ∧ n + j < data.length - 1 := by
      rw [List.length_take,List.length_drop,length_tail_numbered] at length
      omega
    have place : ((((numbered data).tail.drop n).take k))[j]? = (numbered data)[n + j + 1]? := by
      rw [List.getElem?_take_of_lt inside.1,List.getElem?_drop,List.getElem?_tail]
    have found : data[n + j + 1]? = some data[n + j + 1] := List.getElem?_eq_getElem (by omega)
    rw [List.getLast?_eq_getElem?,length,Nat.add_sub_cancel,place,numbered_getElem?,found]
    rfl

theorem Follows.read {data : List δ} {r : Reader δ} {n : Nat} (few : data.length ≤ 10)
    (follows : Follows (numbered data) r n) {s : Streams δ} {stream : String} (held : entries s stream = numbered data)
    (count : Option Int) : ∃ m, Follows (numbered data) (r.read s stream count) m ∧
      (n < (numbered data).tail.length → n < m) ∧ n ≤ m := by
  have bound := follows.bound
  rw [length_tail_numbered] at bound
  have small : n < 10 := by omega
  have old : ∀ entry ∈ (numbered data).take (n + 1), ¬r.last < entry.1 := by
    intro entry member
    obtain ⟨i,found⟩ := List.mem_iff_getElem?.mp member
    rw [List.getElem?_take] at found
    split at found
    · obtain ⟨inside,id⟩ := numbered_id found
      rw [follows.last,id,entryId_lt small (by omega)]
      omega
    · cases found
  have new : ∀ entry ∈ (numbered data).drop (n + 1), r.last < entry.1 := by
    intro entry member
    obtain ⟨i,found⟩ := List.mem_iff_getElem?.mp member
    rw [List.getElem?_drop] at found
    obtain ⟨inside,id⟩ := numbered_id found
    rw [follows.last,id,entryId_lt small (by omega)]
    omega
  obtain ⟨m,some,found⟩ := collect_sorted count [] old new
  rw [List.take_append_drop,List.nil_append,← List.drop_tail] at found
  have length : (((numbered data).tail.drop n).take m).length = min m ((numbered data).tail.length - n) := by
    rw [List.length_take,List.length_drop]
  refine ⟨n + (((numbered data).tail.drop n).take m).length,?_,?_,?_⟩
  · rw [read_eq,held,found,receive_all]
    refine { bound := ?_,last := ?_,received := ?_ }
    · have := follows.bound
      omega
    · rw [follows.last]
      exact last_id data n m
    · rw [follows.received,List.take_add,length,← List.length_drop,← List.take_eq_take_min]
  · omega
  · omega

theorem run_follows (stream : String) (count : Option Int) (actions : List (Action δ))
    (few : (added stream actions).length ≤ 10) :
    ∃ n, Follows (numbered (added stream actions)) (run stream count {} actions).reader n := by
  induction actions using List.reverseRecOn with
  | nil => exact ⟨0,{ bound := Nat.zero_le _,last := rfl,received := rfl }⟩
  | append_singleton before action ih =>
    rw [added_append,List.length_append] at few
    obtain ⟨n,follows⟩ := ih (by omega)
    rw [run_append,added_append]
    cases action with
    | read =>
      simp only [added,List.append_nil]
      obtain ⟨m,later,-⟩ := follows.read (by omega) (run_entries stream count before) count
      exact ⟨m,later⟩
    | add target data =>
      refine ⟨n,{ bound := ?_,last := follows.last,received := follows.received.trans ?_ }⟩
      · have bound := follows.bound
        rw [length_tail_numbered] at bound ⊢
        rw [List.length_append]
        omega
      · simp only [added]
        split
        · rw [numbered_append]
          cases events : numbered (added stream before) with
          | nil =>
            have bound := follows.bound
            rw [events] at bound
            rw [Nat.le_zero.mp bound]
            rfl
          | cons first rest =>
            have bound := follows.bound
            rw [events] at bound
            exact (List.take_append_of_le_length bound).symm
        · rw [List.append_nil]

/-- Of at most ten events the reader gets all but the first, each once and in order. -/
theorem rest_delivered (stream : String) (count : Option Int) (actions : List (Action δ))
    (few : (added stream actions).length ≤ 10) : ∃ enough, ∀ more,
      (run stream count {} (actions ++ List.replicate (enough + more) .read)).reader.received =
        (numbered (added stream actions)).tail := by
  have progress (k : Nat) : ∃ n, min k (numbered (added stream actions)).tail.length ≤ n ∧
      Follows (numbered (added stream actions)) (run stream count {} (actions ++ List.replicate k .read)).reader n := by
    induction k with
    | zero =>
      obtain ⟨n,follows⟩ := run_follows stream count actions few
      rw [List.replicate_zero,List.append_nil]
      exact ⟨n,(Nat.min_le_left 0 _).trans (Nat.zero_le n),follows⟩
    | succ k ih =>
      obtain ⟨n,reached,follows⟩ := ih
      have held := run_entries stream count (actions ++ List.replicate k .read)
      rw [added_append,added_reads,List.append_nil] at held
      obtain ⟨m,later,further,kept⟩ := follows.read few held count
      rw [List.replicate_succ',← List.append_assoc,run_append]
      exact ⟨m,by omega,later⟩
  refine ⟨(numbered (added stream actions)).tail.length,fun more => ?_⟩
  obtain ⟨n,reached,follows⟩ := progress ((numbered (added stream actions)).tail.length + more)
  rw [follows.received,List.take_of_length_le (by omega)]

/-- A single event is never delivered. -/
theorem first_event_lost : ¬∀ (stream : String) (count : Option Int) (actions : List (Action String)),
    Delivers stream count actions := by
  intro delivered
  cases quiet_of_delivers (delivered "run:1" (some 10) [.add "run:1" "started"])

end IceOS.EventStream
