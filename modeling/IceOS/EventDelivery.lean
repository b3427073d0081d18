import IceOS.JsonLines
import IceOS.NodeModels
import IceOS.OrderedDict
import IceOS.ServerSentEvents

/-! The events of a run on their way from the stream of Redis over the route to those who listen: the Python client, and
the store behind the canvas. -/
namespace IceOS.EventDelivery

open PythonJson ServerSentEvents

variable {φ ρ : Type}

/-- What `_emit` is given: a name of one line, and a payload that can be written. -/
structure RunEvent (φ : Type) where
  name : String
  payload : Json φ
  plain : ∀ c ∈ name.toList, printable c = true
  fits : representable payload = true

abbrev Entry (φ : Type) := String × RunEvent φ

/-- The id to read on from behind some entries. -/
def lastId (read : List (Entry φ)) : String := (read.getLast?.map Prod.fst).getD "0-0"

/-- A stream of Redis: what is added gets an id of its own, and `XREAD` with a count of ten gives what comes behind the
entry with an id. -/
structure RunStream (φ ρ : Type) where
  log : ρ → List (Entry φ)
  xadd : RunEvent φ → ρ → ρ
  xread : ρ → String → List (Entry φ)
  xadd_log : ∀ e s, ∃ id, log (xadd e s) = log s ++ [(id,e)]
  xread_log : ∀ s read new, log s = read ++ new → xread s (lastId read) = new.take 10

/-! ### The route -/

/-- What `_gen` has read and yielded. -/
structure Feed (φ : Type) where
  last : String := "0-0"
  yielded : List (RunEvent φ) := []
  ended : Bool := false

/-- The event that ends the stream. -/
def Final (e : RunEvent φ) : Prop := e.name = "workflow.finished"

instance : DecidablePred (Final (φ := φ)) := fun e => inferInstanceAs (Decidable (e.name = "workflow.finished"))

def Feed.take (g : Feed φ) (entry : Entry φ) : Feed φ :=
  if g.ended then g else ⟨entry.1,g.yielded ++ [entry.2],decide (Final entry.2)⟩

def Feed.round (redis : RunStream φ ρ) (s : ρ) (g : Feed φ) : Feed φ :=
  if g.ended then g else (redis.xread s g.last).foldl Feed.take g

inductive Action (φ : Type)
  | emit (e : RunEvent φ)
  | round

structure State (φ ρ : Type) where
  stream : ρ
  feed : Feed φ := {}

def step (redis : RunStream φ ρ) (s : State φ ρ) : Action φ → State φ ρ
  | .emit e => { s with stream := redis.xadd e s.stream }
  | .round => { s with feed := s.feed.round redis s.stream }

def run (redis : RunStream φ ρ) (s : State φ ρ) (actions : List (Action φ)) : State φ ρ := actions.foldl (step redis) s

/-- The events up to the first that ends the stream. -/
def untilFinal : List (RunEvent φ) → List (RunEvent φ)
  | [] => []
  | e :: rest => if Final e then [e] else e :: untilFinal rest

def RunStream.events (redis : RunStream φ ρ) (s : ρ) : List (RunEvent φ) := (redis.log s).map Prod.snd

/-- What the feed has yielded are the first events of the stream, none of them behind one that ends it. -/
structure Follows (redis : RunStream φ ρ) (s : State φ ρ) : Prop where
  reads : ∃ read new, redis.log s.stream = read ++ new ∧ s.feed.yielded = read.map Prod.snd ∧ s.feed.last = lastId read
  ended : s.feed.ended = true → untilFinal s.feed.yielded = s.feed.yielded ∧ ∃ e ∈ s.feed.yielded, Final e
  open_ : s.feed.ended = false → ∀ e ∈ s.feed.yielded, ¬Final e

theorem untilFinal_append {front : List (RunEvent φ)} (none : ∀ e ∈ front, ¬Final e) (rest : List (RunEvent φ)) :
    untilFinal (front ++ rest) = front ++ untilFinal rest := by
  induction front with
  | nil => rfl
  | cons e front ih =>
    obtain ⟨first,later⟩ := List.forall_mem_cons.mp none
    simp only [List.cons_append,untilFinal,if_neg first,ih later]

theorem untilFinal_ended {front : List (RunEvent φ)} (some : ∃ e ∈ front, Final e) (rest : List (RunEvent φ)) :
    untilFinal (front ++ rest) = untilFinal front := by
  induction front with
  | nil =>
    obtain ⟨e,member,-⟩ := some
    cases member
  | cons e front ih =>
    simp only [List.cons_append,untilFinal]
    split
    · rfl
    · next other =>
      obtain ⟨final,member,ends⟩ := some
      rw [ih ⟨final,(List.mem_cons.mp member).resolve_left fun same => other (same ▸ ends),ends⟩]

theorem untilFinal_begins (events : List (RunEvent φ)) : untilFinal events <+: events := by
  induction events with
  | nil => exact List.prefix_refl _
  | cons e rest ih =>
    simp only [untilFinal]
    split
    · exact List.prefix_append [e] rest
    · exact List.cons_prefix_cons.mpr ⟨rfl,ih⟩

theorem exists_untilFinal (events : List (RunEvent φ)) : (∃ e ∈ untilFinal events, Final e) ↔ ∃ e ∈ events, Final e := by
  induction events with
  | nil => exact Iff.rfl
  | cons e rest ih =>
    by_cases final : Final e
    · simp [untilFinal,final]
    · simp [untilFinal,final,ih]

theorem take_ended {g : Feed φ} (ended : g.ended = true) (batch : List (Entry φ)) : batch.foldl Feed.take g = g := by
  induction batch with
  | nil => rfl
  | cons entry rest ih => rw [List.foldl_cons,Feed.take,if_pos ended,ih]

/-- What an open feed takes of a batch: all of it, or what comes up to an event that ends the stream. -/
structure Takes (g : Feed φ) (batch taken left : List (Entry φ)) : Prop where
  parts : batch = taken ++ left
  yielded : (batch.foldl Feed.take g).yielded = g.yielded ++ taken.map Prod.snd
  last : (batch.foldl Feed.take g).last = (taken.getLast?.map Prod.fst).getD g.last
  open_ : (batch.foldl Feed.take g).ended = false → left = [] ∧ ∀ e ∈ taken.map Prod.snd, ¬Final e
  ended : (batch.foldl Feed.take g).ended = true →
    untilFinal (taken.map Prod.snd) = taken.map Prod.snd ∧ ∃ e ∈ taken.map Prod.snd, Final e

theorem takes_batch (g : Feed φ) (batch : List (Entry φ)) (going : g.ended = false) :
    ∃ taken left, Takes g batch taken left := by
  induction batch generalizing g with
  | nil => exact ⟨[],[],rfl,by simp,rfl,fun _ => ⟨rfl,by simp⟩,fun ended => by simp [going] at ended⟩
  | cons entry rest ih =>
    have next : g.take entry = ⟨entry.1,g.yielded ++ [entry.2],decide (Final entry.2)⟩ := by simp [Feed.take,going]
    by_cases final : Final entry.2
    · have stays : (entry :: rest).foldl Feed.take g = ⟨entry.1,g.yielded ++ [entry.2],true⟩ := by
        rw [List.foldl_cons,next,decide_eq_true final,take_ended rfl]
      exact ⟨[entry],rest,rfl,by rw [stays]; rfl,by rw [stays]; rfl,fun open_ => by simp [stays] at open_,
        fun _ => ⟨by simp [untilFinal,final],entry.2,by simp,final⟩⟩
    · obtain ⟨taken,left,h⟩ := ih (g.take entry) (by simp [next,final])
      refine ⟨entry :: taken,left,by rw [h.parts]; rfl,?_,?_,fun open_ => ?_,fun ended => ?_⟩
      · rw [List.foldl_cons,h.yielded,next]
        simp
      · rw [List.foldl_cons,h.last,next]
        cases taken <;> simp [List.getLast?_cons]
      · obtain ⟨nothing,others⟩ := h.open_ open_
        exact ⟨nothing,List.forall_mem_cons.mpr ⟨final,others⟩⟩
      · obtain ⟨same,other,member,ends⟩ := h.ended ended
        refine ⟨?_,other,List.mem_cons_of_mem _ member,ends⟩
        rw [List.map_cons,untilFinal,if_neg final,same]

variable {redis : RunStream φ ρ} {s : State φ ρ}

theorem lastId_append (read taken : List (Entry φ)) :
    lastId (read ++ taken) = (taken.getLast?.map Prod.fst).getD (lastId read) := by
  rw [lastId,List.getLast?_append]
  cases taken.getLast? <;> rfl

theorem Follows.start (stream : ρ) : Follows redis ⟨stream,{}⟩ where
  reads := ⟨[],redis.log stream,rfl,rfl,rfl⟩
  ended stopped := by cases stopped
  open_ _ e member := by cases member

/-- A round takes a batch of what is new, of which there is less then. -/
theorem Follows.round (h : Follows redis s) : Follows redis (step redis s .round) ∧
    ((step redis s .round).feed.ended = true ∨
      min (redis.log s.stream).length (s.feed.yielded.length + 1) ≤ (step redis s .round).feed.yielded.length) := by
  cases going : s.feed.ended with
  | true =>
    have same : step redis s .round = s := by simp [step,Feed.round,going]
    rw [same]
    exact ⟨h,.inl going⟩
  | false =>
    obtain ⟨read,new,log,yielded,last⟩ := h.reads
    obtain ⟨taken,left,t⟩ := takes_batch s.feed (new.take 10) going
    have feed : (step redis s .round).feed = (new.take 10).foldl Feed.take s.feed := by
      simp only [step,Feed.round,going,Bool.false_eq_true,if_false,last,redis.xread_log _ _ _ log]
    refine ⟨⟨⟨read ++ taken,left ++ new.drop 10,?_,?_,?_⟩,fun ended => ?_,fun open_ => ?_⟩,?_⟩
    · rw [List.append_assoc,← List.append_assoc taken,← t.parts,List.take_append_drop]
      exact log
    · rw [feed,t.yielded,yielded,List.map_append]
    · rw [feed,t.last,last,lastId_append]
    · rw [feed] at ended ⊢
      obtain ⟨same,final,member,ends⟩ := t.ended ended
      rw [t.yielded,untilFinal_append (h.open_ going),same]
      exact ⟨rfl,final,List.mem_append_right _ member,ends⟩
    · rw [feed] at open_ ⊢
      rw [t.yielded]
      exact List.forall_mem_append.mpr ⟨h.open_ going,(t.open_ open_).2⟩
    · rw [feed,t.yielded,yielded,log]
      cases stopped : ((new.take 10).foldl Feed.take s.feed).ended with
      | true => exact .inl rfl
      | false =>
        have all : taken = new.take 10 := by rw [t.parts,(t.open_ stopped).1,List.append_nil]
        refine .inr ?_
        simp only [List.length_append,List.length_map,all,List.length_take]
        omega

theorem Follows.emit (h : Follows redis s) (e : RunEvent φ) : Follows redis (step redis s (.emit e)) where
  reads := by
    obtain ⟨read,new,log,yielded,last⟩ := h.reads
    obtain ⟨id,added⟩ := redis.xadd_log e s.stream
    exact ⟨read,new ++ [(id,e)],by rw [step,added,log,List.append_assoc],yielded,last⟩
  ended := h.ended
  open_ := h.open_

theorem run_follows (actions : List (Action φ)) (h : Follows redis s) : Follows redis (run redis s actions) := by
  induction actions generalizing s with
  | nil => exact h
  | cons a rest ih =>
    cases a with
    | emit e => exact ih (h.emit e)
    | round => exact ih h.round.1

/-- Once there is nothing new, or the stream has been ended, everything that will be has been yielded. -/
theorem Follows.complete (h : Follows redis s)
    (done : s.feed.ended = true ∨ s.feed.yielded.length = (redis.log s.stream).length) :
    s.feed.yielded = untilFinal (redis.events s.stream) := by
  obtain ⟨read,new,log,yielded,-⟩ := h.reads
  have events : redis.events s.stream = s.feed.yielded ++ new.map Prod.snd := by
    rw [RunStream.events,log,List.map_append,yielded]
  cases ended : s.feed.ended with
  | true => rw [events,untilFinal_ended (h.ended ended).2,(h.ended ended).1]
  | false =>
    have nothing : new = [] := by
      have same := done.resolve_left (by simp [ended])
      rw [yielded,log,List.length_map,List.length_append] at same
      exact List.length_eq_zero_iff.mp (by omega)
    rw [events,untilFinal_append (h.open_ ended),nothing,List.map_nil,untilFinal,List.append_nil]

theorem Follows.begins (h : Follows redis s) : s.feed.yielded <+: untilFinal (redis.events s.stream) := by
  obtain ⟨read,new,log,yielded,-⟩ := h.reads
  cases ended : s.feed.ended with
  | true => exact (h.complete (.inl ended)) ▸ List.prefix_refl _
  | false =>
    rw [RunStream.events,log,List.map_append,← yielded,untilFinal_append (h.open_ ended)]
    exact List.prefix_append _ _

theorem Follows.length_le (h : Follows redis s) : s.feed.yielded.length ≤ (redis.log s.stream).length := by
  obtain ⟨read,new,log,yielded,-⟩ := h.reads
  rw [yielded,log,List.length_map,List.length_append]
  exact Nat.le_add_right _ _

theorem run_append (s : State φ ρ) (actions more : List (Action φ)) :
    run redis s (actions ++ more) = run redis (run redis s actions) more := List.foldl_append

/-- Rounds alone leave the stream as it is, and end the feed or take something new each. -/
theorem rounds_progress (h : Follows redis s) (rounds : Nat) :
    (run redis s (List.replicate rounds .round)).stream = s.stream ∧
      ((run redis s (List.replicate rounds .round)).feed.ended = true ∨
        min (redis.log s.stream).length (s.feed.yielded.length + rounds) ≤
          (run redis s (List.replicate rounds .round)).feed.yielded.length) := by
  induction rounds with
  | zero => exact ⟨rfl,.inr (Nat.min_le_right _ _)⟩
  | succ rounds ih =>
    rw [List.replicate_succ',run_append]
    have now := run_follows (List.replicate rounds .round) h
    generalize run redis s (List.replicate rounds .round) = t at ih now
    obtain ⟨same,progress⟩ := ih
    refine ⟨same,?_⟩
    rcases progress with ended | far
    · exact .inl (by simp [run,step,Feed.round,ended])
    · refine now.round.2.imp id fun further => ?_
      rw [same] at further
      simp only [run,List.foldl_cons,List.foldl_nil]
      omega

/-- However additions and rounds have alternated, rounds enough bring everything up to an event that ends the stream. -/
theorem rounds_finish (h : Follows redis s) {rounds : Nat} (enough : (redis.log s.stream).length ≤ rounds) :
    (run redis s (List.replicate rounds .round)).feed.yielded = untilFinal (redis.events s.stream) := by
  obtain ⟨same,progress⟩ := rounds_progress h rounds
  have later := run_follows (List.replicate rounds .round) h
  have most := later.length_le
  rw [← same]
  refine later.complete (progress.imp id fun far => ?_)
  rw [same] at most ⊢
  omega

/-! ### The client -/

variable (f : FloatTexts φ)

/-- What `_gen` yields for an event. -/
def frame (e : RunEvent φ) : String := "event: " ++ e.name ++ "\ndata: " ++ dumps f e.payload ++ "\n\n"

/-- What `stream_events` yields for a line, if it yields something; a payload that is no JSON is passed over. -/
def readLine (line : String) : Option (Json φ) :=
  if "data: ".toList.isPrefixOf line.toList then loads f (String.ofList (line.toList.drop 6)) else none

def streamEvents (lines : List String) : List (Json φ) := lines.filterMap (readLine f)

def Plain (text : String) : Prop := ∀ c ∈ text.toList, c = '\n' ∨ printable c = true

/-- A response that sends texts as they are, read line by line. -/
def Verbatim (lines : String → List String) : Prop :=
  ∀ text, Plain (text ++ "\n") → lines (text ++ "\n") = PythonText.split "\n" text

/-- A response that makes each text the data of a message, as `EventSourceResponse` does. -/
def Enveloped (lines : String → List String) : Prop :=
  ∀ text, Plain text → lines text = (PythonText.split "\n" text).map ("data: " ++ ·) ++ [""]

theorem printable_shown {c : Char} (shown : printable c = true) : c ≠ '\n' := by
  rintro rfl
  cases shown

theorem dumps_printable (v : Json φ) : ∀ c ∈ (dumps f v).toList, printable c = true := by
  rw [dumps,String.toList_ofList]
  exact valueText_printable f v

theorem frame_eq (e : RunEvent φ) :
    frame f e = joinLines ["event: " ++ e.name,"data: " ++ dumps f e.payload,""] ++ "\n" := by
  apply String.toList_inj.mp
  simp [frame,toList_joinLines]

theorem frame_lines (e : RunEvent φ) : Plain (frame f e) ∧
    PythonText.split "\n" (joinLines ["event: " ++ e.name,"data: " ++ dumps f e.payload,""]) =
      ["event: " ++ e.name,"data: " ++ dumps f e.payload,""] ∧
    PythonText.split "\n" (frame f e) = ["event: " ++ e.name,"data: " ++ dumps f e.payload,"",""] := by
  have named : ∀ c ∈ ("event: " ++ e.name).toList, printable c = true := by
    rw [String.toList_append]
    exact List.forall_mem_append.mpr ⟨List.all_eq_true.mp rfl,e.plain⟩
  have payload : ∀ c ∈ ("data: " ++ dumps f e.payload).toList, printable c = true := by
    rw [String.toList_append]
    exact List.forall_mem_append.mpr ⟨List.all_eq_true.mp rfl,dumps_printable f e.payload⟩
  have clear (more : List String) (blank : ∀ text ∈ more, '\n' ∉ text.toList) :
      ∀ text ∈ ("event: " ++ e.name) :: ("data: " ++ dumps f e.payload) :: more, '\n' ∉ text.toList :=
    List.forall_mem_cons.mpr ⟨fun member => printable_shown (named _ member) rfl,
      List.forall_mem_cons.mpr ⟨fun member => printable_shown (payload _ member) rfl,blank⟩⟩
  have whole : frame f e = joinLines ["event: " ++ e.name,"data: " ++ dumps f e.payload,"",""] := by
    apply String.toList_inj.mp
    simp [frame,toList_joinLines]
  refine ⟨?_,split_joinLines (clear [""] (by decide)),?_⟩
  · intro c member
    rw [whole,toList_joinLines] at member
    rcases List.mem_append.mp member with inside | member
    · exact .inr (named c inside)
    · obtain ⟨line,listed,inside⟩ := List.mem_flatMap.mp member
      rcases List.mem_cons.mp inside with same | inside
      · exact .inl same
      · rcases List.mem_cons.mp listed with rfl | blank
        · exact .inr (payload c inside)
        · have empty : line = "" := by simpa using blank
          rw [empty] at inside
          cases inside
  · rw [whole]
    exact split_joinLines (clear ["",""] (by decide))

theorem readLine_data (text : String) : readLine f ("data: " ++ text) = loads f text := by
  simp [readLine]

theorem readLine_event (name : String) : readLine f ("event: " ++ name) = none := by
  simp [readLine]

theorem loads_letter {c : Char} (letter : c = 'e' ∨ c = 'd') {text : String} (begins : text.toList.head? = some c) :
    loads f text = none := by
  obtain ⟨rest,chars⟩ := List.head?_eq_some_iff.mp begins
  have start : skipSpace (c :: rest) = c :: rest := by rcases letter with rfl | rfl <;> rfl
  have constant : scanConstant f (c :: rest) = none := by rcases letter with rfl | rfl <;> simp [scanConstant,constants]
  have number : scanNumber f (c :: rest) = none := by
    rcases letter with rfl | rfl <;> simp [scanNumber,Numeral.scan,Numeral.scanMinus,Numeral.scanWhole]
  have scanned : scanValue f (2 * (c :: rest).length + 1) (c :: rest) = none := by
    rw [scanValue_plain f (by rcases letter with rfl | rfl <;> decide) (by rcases letter with rfl | rfl <;> decide)
      (by rcases letter with rfl | rfl <;> decide),constant,number]
    rfl
  rw [loads,chars,start,scanned]

theorem verbatim_frame {lines : String → List String} (sends : Verbatim lines) (e : RunEvent φ) :
    lines (frame f e) = ["event: " ++ e.name,"data: " ++ dumps f e.payload,""] := by
  obtain ⟨plain,split,-⟩ := frame_lines f e
  rw [frame_eq] at plain ⊢
  rw [sends _ plain,split]

theorem enveloped_frame {lines : String → List String} (sends : Enveloped lines) (e : RunEvent φ) :
    lines (frame f e) =
      ["event: " ++ e.name,"data: " ++ dumps f e.payload,"",""].map ("data: " ++ ·) ++ [""] := by
  obtain ⟨plain,-,split⟩ := frame_lines f e
  rw [sends _ plain,split]

theorem streamEvents_verbatim {lines : String → List String} (sends : Verbatim lines) (events : List (RunEvent φ)) :
    streamEvents f (events.flatMap fun e => lines (frame f e)) = events.map RunEvent.payload := by
  induction events with
  | nil => rfl
  | cons e rest ih =>
    have blank : readLine f "" = none := rfl
    rw [streamEvents] at ih ⊢
    rw [List.flatMap_cons,List.filterMap_append,ih,verbatim_frame f sends]
    simp only [List.filterMap_cons,List.filterMap_nil,readLine_event,readLine_data,loads_dumps f e.fits,blank]
    rfl

theorem streamEvents_enveloped {lines : String → List String} (sends : Enveloped lines) (events : List (RunEvent φ)) :
    streamEvents f (events.flatMap fun e => lines (frame f e)) = [] := by
  induction events with
  | nil => rfl
  | cons e rest ih =>
    have blank : readLine f "" = none ∧ loads f "" = none := ⟨rfl,rfl⟩
    have named : loads f ("event: " ++ e.name) = none := loads_letter f (.inl rfl) (by simp)
    have payload : loads f ("data: " ++ dumps f e.payload) = none := loads_letter f (.inr rfl) (by simp)
    rw [streamEvents] at ih ⊢
    rw [List.flatMap_cons,List.filterMap_append,ih,enveloped_frame f sends]
    simp only [List.map_cons,List.map_nil,List.cons_append,List.nil_append,List.filterMap_cons,List.filterMap_nil,
      readLine_data,named,payload,blank]

/-- The lines of the response so far. -/
def Feed.body (lines : String → List String) (g : Feed φ) : List String := g.yielded.flatMap fun e => lines (frame f e)

/-- Over a response that sent the texts as they are the client would have the payloads of the first events at any moment,
and after enough rounds of all up to the one that ends the stream. Over the response that is used it never has any. -/
theorem client_receives {verbatim enveloped : String → List String} (plainly : Verbatim verbatim)
    (wrapped : Enveloped enveloped) (redis : RunStream φ ρ) (stream : ρ) (actions : List (Action φ)) :
    let s := run redis ⟨stream,{}⟩ actions
    streamEvents f (s.feed.body f verbatim) <+: (untilFinal (redis.events s.stream)).map RunEvent.payload ∧
      (∃ enough, ∀ more, streamEvents f ((run redis s (List.replicate (enough + more) .round)).feed.body f verbatim) =
        (untilFinal (redis.events s.stream)).map RunEvent.payload) ∧
      streamEvents f (s.feed.body f enveloped) = [] := by
  have follows : Follows redis (run redis ⟨stream,{}⟩ actions) := run_follows actions (.start stream)
  refine ⟨?_,⟨(redis.log (run redis ⟨stream,{}⟩ actions).stream).length,fun more => ?_⟩,?_⟩
  · rw [Feed.body,streamEvents_verbatim f plainly]
    exact follows.begins.map _
  · rw [Feed.body,streamEvents_verbatim f plainly,rounds_finish follows (Nat.le_add_right _ _)]
  · exact streamEvents_enveloped f wrapped _

def unaryId (n : Nat) : String := String.ofList (List.replicate (n + 1) '1' ++ ['-','0'])

/-- A stream whose ids are counted in unary. -/
def unaryRedis : RunStream φ (List (RunEvent φ)) where
  log s := s.zipIdx.map fun item => (unaryId item.2,item.1)
  xadd e s := s ++ [e]
  xread s last :=
    ((s.zipIdx.map fun item => (unaryId item.2,item.1)).drop (if last = "0-0" then 0 else last.length - 2)).take 10
  xadd_log e s := ⟨unaryId s.length,by simp [List.zipIdx_append]⟩
  xread_log s read new parts := by
    have behind (n : Nat) (same : n = read.length) : ((read ++ new).drop n).take 10 = new.take 10 := by
      rw [same,List.drop_left]
    rw [parts]
    apply behind
    rcases List.eq_nil_or_concat read with rfl | ⟨front,entry,rfl⟩
    · rfl
    · have at_ : (s.zipIdx.map fun item => (unaryId item.2,item.1))[front.length]? = some entry := by
        rw [parts]
        simp
      obtain ⟨e,-,rfl⟩ : ∃ e, s[front.length]? = some e ∧ (unaryId front.length,e) = entry := by simpa using at_
      have id : lastId (front ++ [(unaryId front.length,e)]) = unaryId front.length := by simp [lastId]
      have other : unaryId front.length ≠ "0-0" := by
        intro same
        have chars := congrArg String.toList same
        simp [unaryId,List.replicate_succ] at chars
      have length : (unaryId front.length).length = front.length + 3 := by
        simp only [unaryId,String.length_ofList,List.length_append,List.length_replicate,List.length_cons,List.length_nil]
      rw [List.concat_eq_append,id,if_neg other,length,List.length_append]
      rfl

def plainLines (body : String) : List String := PythonText.split "\n" (String.ofList body.toList.dropLast)

def sseLines (text : String) : List String := (PythonText.split "\n" text).map ("data: " ++ ·) ++ [""]

def started : RunEvent Unit := ⟨"node.started",.dict [("node_id",.str "n1")],List.all_eq_true.mp rfl,by decide⟩

def finished : RunEvent Unit := ⟨"workflow.finished",.dict [("success",.bool true)],List.all_eq_true.mp rfl,by decide⟩

theorem plainLines_verbatim : Verbatim plainLines := fun text _ => by simp [plainLines]

theorem sseLines_enveloped : Enveloped sseLines := fun _ _ => rfl

theorem client_receives_two : ∃ enough, ∀ more,
    streamEvents PythonJson.zeroTexts ((run unaryRedis (run unaryRedis ⟨[],{}⟩ [.emit started,.round,.emit finished])
      (List.replicate (enough + more) .round)).feed.body PythonJson.zeroTexts plainLines) =
        [started.payload,finished.payload] :=
  (client_receives PythonJson.zeroTexts plainLines_verbatim sseLines_enveloped unaryRedis []
    [.emit started,.round,.emit finished]).2.1

/-! ### The canvas -/

inductive NodeStatus where
  | queued | running | completed | failed
  deriving DecidableEq, Repr

/-- `useExecutionStore`, and whether its `EventSource` is open. -/
structure ExecutionState (φ : Type) where
  events : List (String × Json φ) := []
  nodeStatus : OrderedDict String NodeStatus := .empty
  finished : Bool := false
  success : Option Bool := none
  listening : Bool := true

/-- What the browser does with values: `JSON.parse`, which throws or not, `String(value)` and `!!value`. -/
structure Browser (φ : Type) where
  parseJson : String → Option (Json φ)
  string : Json φ → String
  truthy : Json φ → Bool

/-- `payload[key]`, unless it is undefined. -/
def member : Json φ → String → Option (Json φ)
  | .dict entries,key => entries.lookup key
  | _,_ => none

/-- What `??` passes over. -/
def given : Option (Json φ) → Option (Json φ)
  | some .null => none
  | v => v

/-- An event as a message. -/
def RunEvent.message (e : RunEvent φ) : Message := ⟨if e.name = "" then "message" else e.name,dumps f e.payload⟩

namespace Browser

variable (b : Browser φ)

/-- A payload without a node, and `null`, whose members cannot be asked for. -/
def nodeId : Json φ → Option String
  | .null => none
  | payload =>
    let id := b.string (((given (member payload "node_id")).or (given (member payload "id"))).getD (.str ""))
    if id = "" then none else some id

def listeners : List (String × NodeStatus) :=
  [("node.started",.running),("node.completed",.completed),("node.failed",.failed)]

/-- What the store makes of a message. -/
def receive (s : ExecutionState φ) (m : Message) : ExecutionState φ :=
  if s.listening = false then s
  else if m.type = "message" then
    { s with events := s.events ++ [("message",(b.parseJson m.data).getD (.str m.data))] }
  else if m.type = "workflow.finished" then
    match b.parseJson m.data with
    | none | some .null => { s with events := s.events ++ [(m.type,.dict [])], finished := true, success := none }
    | some payload =>
      { s with
        events := s.events ++ [(m.type,payload)], finished := true
        success := some (((member payload "success").map b.truthy).getD false) }
  else if m.type = "error" then { s with events := s.events ++ [("error",.str "SSE connection lost")], listening := false }
  else
    match listeners.lookup m.type,b.parseJson m.data with
    | some status,some payload =>
      match b.nodeId payload with
      | some node => { s with events := s.events ++ [(m.type,payload)], nodeStatus := s.nodeStatus.set node status }
      | none => s
    | _,_ => s

/-- The lines of a response, as the store has taken them. -/
def shows (lines : List String) : ExecutionState φ := (parse {} lines).foldl b.receive {}

/-- The status that an event reports of a node. -/
def statusOf (node : String) (e : RunEvent φ) : Option NodeStatus :=
  if (b.parseJson (dumps f e.payload)).bind b.nodeId = some node then listeners.lookup e.name else none

theorem parse_verbatim {lines : String → List String} (sends : Verbatim lines) (events : List (RunEvent φ)) :
    parse {} (events.flatMap fun e => lines (frame f e)) =
      events.map fun e => e.message f := by
  induction events with
  | nil => rfl
  | cons e rest ih =>
    have named : "event: " ++ e.name = "event" ++ ": " ++ e.name := rfl
    have payload : "data: " ++ dumps f e.payload = "data" ++ ": " ++ dumps f e.payload := rfl
    rw [List.flatMap_cons,verbatim_frame f sends,named,payload]
    simp only [List.cons_append,List.nil_append]
    rw [parse_field _ (by decide),parse_field _ (by decide),parse_blank,ih]
    simp [RunEvent.message,Partial.add,Partial.finish,joinLines]

theorem parse_enveloped {lines : String → List String} (sends : Enveloped lines) (events : List (RunEvent φ)) :
    parse {} (events.flatMap fun e => lines (frame f e)) = events.map fun e => ⟨"message",frame f e⟩ := by
  induction events with
  | nil => rfl
  | cons e rest ih =>
    have whole : joinLines ["event: " ++ e.name,"data: " ++ dumps f e.payload,"",""] = frame f e := by
      apply String.toList_inj.mp
      simp [frame,toList_joinLines]
    rw [List.flatMap_cons,enveloped_frame f sends,List.append_assoc,List.singleton_append,parse_data,ih]
    simp [Partial.finish,whole]

/-- A message of no type is kept, and changes nothing else. -/
theorem receive_messages (messages : List Message) (untyped : ∀ m ∈ messages, m.type = "message") (s : ExecutionState φ) :
    (messages.foldl b.receive s).nodeStatus = s.nodeStatus ∧ (messages.foldl b.receive s).finished = s.finished := by
  induction messages generalizing s with
  | nil => exact ⟨rfl,rfl⟩
  | cons m rest ih =>
    obtain ⟨first,later⟩ := List.forall_mem_cons.mp untyped
    have kept : (b.receive s m).nodeStatus = s.nodeStatus ∧ (b.receive s m).finished = s.finished := by
      simp only [receive,first,if_true]
      split <;> exact ⟨rfl,rfl⟩
    rw [List.foldl_cons]
    exact ⟨(ih later _).1.trans kept.1,(ih later _).2.trans kept.2⟩

theorem lookup_listeners {name : String} {status : NodeStatus} (listed : listeners.lookup name = some status) :
    name ≠ "" ∧ name ≠ "message" ∧ name ≠ "workflow.finished" := by
  refine ⟨?_,?_,?_⟩ <;> (rintro rfl; cases listed)

/-- What one event does to a store that listens. -/
theorem receive_event {s : ExecutionState φ} (listening : s.listening = true) {e : RunEvent φ} (fine : e.name ≠ "error") :
    let later := b.receive s (e.message f)
    later.listening = true ∧ (later.finished = true ↔ s.finished = true ∨ Final e) ∧
      ∀ node, later.nodeStatus.get? node = (b.statusOf f node e).or (s.nodeStatus.get? node) := by
  have quiet (other : listeners.lookup e.name = none) (node : String) : b.statusOf f node e = none := by
    simp [statusOf,other]
  have open_ : ¬s.listening = false := by simp [listening]
  dsimp only
  rw [receive,if_neg open_,RunEvent.message]
  cases listed : listeners.lookup e.name with
  | some status =>
    obtain ⟨named,typed,going⟩ := lookup_listeners listed
    have later : ¬Final e := going
    simp only [named,typed,going,fine,listed,if_false,later,or_false]
    cases parsed : b.parseJson (dumps f e.payload) with
    | none => exact ⟨listening,Iff.rfl,fun node => by simp [statusOf,parsed]⟩
    | some payload =>
      dsimp only
      cases known : b.nodeId payload with
      | none => exact ⟨listening,Iff.rfl,fun node => by simp [statusOf,parsed,known]⟩
      | some own =>
        refine ⟨listening,Iff.rfl,fun node => ?_⟩
        rw [OrderedDict.get?_set]
        by_cases same : own = node <;> simp [statusOf,parsed,known,listed,same]
  | none =>
    by_cases untyped : e.name = "" ∨ e.name = "message"
    · have typed : (if e.name = "" then "message" else e.name) = "message" := by
        rcases untyped with empty | message
        · rw [if_pos empty]
        · rw [message]
          rfl
      have later : ¬Final e := by rcases untyped with name | name <;> simp [Final,name]
      simp only [typed,if_true,later,or_false]
      exact ⟨listening,trivial,fun node => by simp [quiet listed]⟩
    · obtain ⟨named,typed⟩ := not_or.mp untyped
      simp only [named,typed,fine,listed,if_false]
      by_cases final : e.name = "workflow.finished"
      · have ends : Final e := final
        simp only [final,if_true]
        split <;> exact ⟨listening,by simp [ends],fun node => by simp [quiet listed]⟩
      · have later : ¬Final e := final
        simp only [final,if_false,later,or_false]
        exact ⟨listening,trivial,fun node => by simp [quiet listed]⟩

theorem receive_events {events : List (RunEvent φ)} (fine : ∀ e ∈ events, e.name ≠ "error") {s : ExecutionState φ}
    (listening : s.listening = true) :
    let later := (events.map fun e => e.message f).foldl b.receive s
    (later.finished = true ↔ s.finished = true ∨ ∃ e ∈ events, Final e) ∧
      ∀ node, later.nodeStatus.get? node =
        ((events.filterMap (b.statusOf f node)).getLast?).or (s.nodeStatus.get? node) := by
  induction events generalizing s with
  | nil => simp
  | cons e rest ih =>
    obtain ⟨first,others⟩ := List.forall_mem_cons.mp fine
    obtain ⟨open_,finished,statuses⟩ := b.receive_event f listening first
    obtain ⟨finishes,sets⟩ := ih others open_
    refine ⟨?_,fun node => ?_⟩
    · rw [List.map_cons,List.foldl_cons,finishes,finished,or_assoc,List.exists_mem_cons_iff]
    · rw [List.map_cons,List.foldl_cons,sets node,statuses node]
      cases reported : b.statusOf f node e with
      | none => rw [List.filterMap_cons_none reported,Option.none_or]
      | some status =>
        rw [List.filterMap_cons_some reported,List.getLast?_cons]
        cases (rest.filterMap (b.statusOf f node)).getLast? <;> rfl

end Browser

/-- Over a response that sent the texts as they are the canvas would come to know, after rounds enough, whether the run
has ended and what was last reported of each node. Over the response that is used it never learns anything. -/
theorem canvas_shows (b : Browser φ) {verbatim enveloped : String → List String} (plainly : Verbatim verbatim)
    (wrapped : Enveloped enveloped) (redis : RunStream φ ρ) (stream : ρ) (actions : List (Action φ)) :
    let s := run redis ⟨stream,{}⟩ actions
    ((∀ e ∈ redis.events s.stream, e.name ≠ "error") → ∃ enough, ∀ more,
      let shown := b.shows ((run redis s (List.replicate (enough + more) .round)).feed.body f verbatim)
      (shown.finished = true ↔ ∃ e ∈ redis.events s.stream, Final e) ∧
        ∀ node, shown.nodeStatus.get? node =
          ((untilFinal (redis.events s.stream)).filterMap (b.statusOf f node)).getLast?) ∧
      (b.shows (s.feed.body f enveloped)).nodeStatus = .empty ∧ (b.shows (s.feed.body f enveloped)).finished = false := by
  have follows : Follows redis (run redis ⟨stream,{}⟩ actions) := run_follows actions (.start stream)
  refine ⟨fun fine => ⟨(redis.log (run redis ⟨stream,{}⟩ actions).stream).length,fun more => ?_⟩,?_⟩
  · have all := rounds_finish follows (Nat.le_add_right _ more)
    have begins := untilFinal_begins (redis.events (run redis ⟨stream,{}⟩ actions).stream)
    obtain ⟨finished,statuses⟩ := b.receive_events f (fun e member => fine e (begins.subset member)) (s := {}) rfl
    simp only [Browser.shows,Feed.body,all,Browser.parse_verbatim f plainly]
    exact ⟨finished.trans (by simp [exists_untilFinal]),fun node => (statuses node).trans (by simp)⟩
  · rw [Feed.body,Browser.shows,Browser.parse_enveloped f wrapped]
    refine b.receive_messages _ (fun m member => ?_) {}
    obtain ⟨e,-,rfl⟩ := List.mem_map.mp member
    rfl

def plainBrowser : Browser Unit where
  parseJson := loads PythonJson.zeroTexts
  string v := match v with
    | .str text => text
    | _ => "?"
  truthy v := match v with
    | .bool b => b
    | _ => true

theorem canvas_shows_two : ∃ enough, ∀ more,
    let shown := plainBrowser.shows ((run unaryRedis (run unaryRedis ⟨[],{}⟩ [.emit started,.round,.emit finished])
      (List.replicate (enough + more) .round)).feed.body PythonJson.zeroTexts plainLines)
    shown.finished = true ∧ shown.nodeStatus.get? "n1" = some .running := by
  have events : unaryRedis.events [started,finished] = [started,finished] := rfl
  have all : untilFinal [started,finished] = [started,finished] := rfl
  have fine : ∀ e ∈ unaryRedis.events [started,finished], e.name ≠ "error" := by
    rw [events]
    simp [started,finished]
  have reported : plainBrowser.statusOf PythonJson.zeroTexts "n1" started = some .running := by
    have parses (text : String) : plainBrowser.parseJson text = loads PythonJson.zeroTexts text := rfl
    have known : plainBrowser.nodeId started.payload = some "n1" := rfl
    rw [Browser.statusOf,parses,loads_dumps _ started.fits,Option.bind_some,known,if_pos rfl]
    rfl
  have other : plainBrowser.statusOf PythonJson.zeroTexts "n1" finished = none := by
    have unlisted : Browser.listeners.lookup finished.name = none := rfl
    rw [Browser.statusOf,unlisted,ite_self]
  obtain ⟨enough,shows⟩ := (canvas_shows PythonJson.zeroTexts plainBrowser plainLines_verbatim sseLines_enveloped
    unaryRedis [] [.emit started,.round,.emit finished]).1 fine
  refine ⟨enough,fun more => ?_⟩
  obtain ⟨ends,reports⟩ := shows more
  refine ⟨ends.mpr ⟨finished,.tail _ (.head _),rfl⟩,?_⟩
  rw [reports "n1"]
  change ((untilFinal (unaryRedis.events [started,finished])).filterMap _).getLast? = _
  rw [events,all,List.filterMap_cons_some reported,List.filterMap_cons_none other]
  rfl

end IceOS.EventDelivery
