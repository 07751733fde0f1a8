import CloudComputing.KeyValueStore.Numbering

/-!
# Verdicts and batches

`checkMessages` judges what one call has collected and then forgets it.  The
verdicts of an operation are therefore a function of how its replies are spread
over the calls.
-/

namespace CloudComputing.KeyValueStore

open Lib

def Request.type : Request → MessageType
  | .create _ _ => .create
  | .read _ => .read
  | .update _ _ => .update
  | .delete _ => .delete

namespace Message

/-- The last branch of `checkMessages` takes the message. -/
def isReadReply (m : Message) : Bool :=
  match m.type with
  | .readreply | .other _ _ => true
  | _ => false

/-- The message counts as a reply to the operation `t`, which is of the type `type`. -/
def RepliesTo (type : MessageType) (t : Int32) (m : Message) : Prop :=
  m.transID = t ∧ if type = .read then m.isReadReply = true else m.type = .reply

instance {type : MessageType} {t : Int32} {m : Message} : Decidable (m.RepliesTo type t) :=
  inferInstanceAs (Decidable (_ ∧ _))

/-- A reply of a replica that did what it was asked, for a `READ` one that found `v`. -/
def Confirms (type : MessageType) (v : Str) (m : Message) : Prop :=
  if type = .read then (Entry.ofString m.value).map Entry.value = some v else m.success = true

instance {type : MessageType} {v : Str} {m : Message} : Decidable (m.Confirms type v) :=
  inferInstanceAs (Decidable (if type = .read
    then (Entry.ofString m.value).map Entry.value = some v else m.success = true))

end Message

namespace World

section

variable (hash : Str → Nat)

def arrivals (uninit : ReplicaType) (p : Message → Prop) [DecidablePred p] (queue : List Str) :
    List Message :=
  queue.filterMap fun s => (Message.ofString uninit s).filter fun m => p m

/-- The replies to `t` that `c` takes off its queue, call by call. -/
def batches (c : Address) (type : MessageType) (t : Int32) : World → List Action →
    List (List Message)
  | _, [] => []
  | w, a :: actions =>
      let later := match w.step hash a with
        | some w' => batches c type t w' actions
        | none => []
      match a with
      | .checkMessages self uninit =>
          if self = c then arrivals uninit (Message.RepliesTo type t) (w.node c).mp2q :: later
          else later
      | _ => later

def verdicts (trace : List Event) (t : Int32) : List Bool :=
  trace.filterMap fun e => match e with
    | .logged entry =>
        if entry.isCoordinator = true ∧ entry.transID = t then some entry.success else none
    | _ => none

end

variable {hash : Str → Nat} {w w' : World} {c self : Address} {type : MessageType} {t : Int32}
  {uninit replica : ReplicaType} {v : Str}

theorem verdicts_append {l l' : List Event} :
    verdicts (l ++ l') t = verdicts l t ++ verdicts l' t := List.filterMap_append

theorem verdicts_eq_nil {l : List Event}
    (h : ∀ e, .logged e ∈ l → e.isCoordinator = true → e.transID ≠ t) : verdicts l t = [] := by
  unfold verdicts
  rw [List.filterMap_eq_nil_iff]
  intro e he
  cases e with
  | logged entry =>
      refine if_neg ?_
      rintro ⟨hco, ht⟩
      exact h entry he hco ht
  | stored => rfl

theorem arrivals_cons {p : Message → Prop} [DecidablePred p] {text : Str} {queue : List Str}
    {arrived : Message} (h : Message.ofString uninit text = some arrived) :
    arrivals uninit p (text :: queue) =
      (if p arrived then [arrived] else []) ++ arrivals uninit p queue := by
  unfold arrivals
  rw [List.filterMap_cons, h, Option.filter_some]
  by_cases hp : p arrived
  · simp [hp]
  · simp [hp]

/-! ## Collecting replies -/

def grow {α : Type*} (old : Option (List α)) (new : List α) : Option (List α) :=
  if new = [] then old else some (old.getD [] ++ new)

theorem grow_append {α : Type*} {old : Option (List α)} {l l' : List α} :
    grow (grow old l) l' = grow old (l ++ l') := by
  unfold grow
  by_cases h : l = []
  · simp [h]
  · by_cases h' : l' = []
    · simp [h, h']
    · simp [h, h']

theorem results_getElem? {arrived : Message} {table : Std.TreeMap Int32 (List Bool)} :
    (arrived.results table)[t]? = grow table[t]?
      (if arrived.type = .reply ∧ arrived.transID = t then [arrived.success] else []) := by
  unfold Message.results
  split
  case h_1 htype =>
    by_cases ht : arrived.transID = t
    · simp [grow, htype, ht]
    · simp [grow, ht, Std.TreeMap.getElem?_insert]
  case h_2 htype =>
    rw [if_neg fun h => htype h.1]
    simp [grow]

theorem readValues_getElem? {arrived : Message} {table : Std.TreeMap Int32 (List Str)} :
    (arrived.readValues table)[t]? = grow table[t]?
      (if arrived.isReadReply = true ∧ arrived.transID = t then [arrived.value] else []) := by
  have hinsert : (table.insert arrived.transID
      (table[arrived.transID]?.getD [] ++ [arrived.value]))[t]? = grow table[t]?
      (if arrived.transID = t then [arrived.value] else []) := by
    by_cases ht : arrived.transID = t
    · simp [grow, ht]
    · simp [grow, ht, Std.TreeMap.getElem?_insert]
  cases htype : arrived.type with
  | readreply | other n hn =>
      simpa [Message.readValues, Message.isReadReply, htype] using hinsert
  | create | read | update | delete | reply =>
      simp [Message.readValues, Message.isReadReply, htype, grow]

/-- What the loop over the queue did at `self`. -/
structure Popped (uninit : ReplicaType) (node : Address) (queue : List Str) (w w' : World) :
    Prop where
  others : ∀ b, b ≠ node → w'.node b = w.node b
  operationTable : (w'.node node).operationTable = (w.node node).operationTable
  transID : w'.transID = w.transID
  resultTable : ∀ t, (w'.node node).resultTable[t]? = grow (w.node node).resultTable[t]?
    ((arrivals uninit (fun m => m.type = .reply ∧ m.transID = t) queue).map Message.success)
  readValueTable : ∀ t, (w'.node node).readValueTable[t]? = grow (w.node node).readValueTable[t]?
    ((arrivals uninit (fun m => m.isReadReply = true ∧ m.transID = t) queue).map Message.value)
  verdicts : ∀ t, verdicts w'.trace t = World.verdicts w.trace t

theorem popped_popLoop {queue : List Str} {s : World × ReplicaType}
    (h : popLoop hash uninit self queue (w, replica) = some s) :
    Popped uninit self queue w s.1 := by
  induction queue generalizing w replica with
  | nil =>
      obtain rfl := Option.some.inj h
      constructor <;> simp [arrivals, grow]
  | cons text queue ih =>
      simp only [popLoop, Option.bind_eq_bind, Option.bind_eq_some_iff] at h
      obtain ⟨arrived, htext, ⟨w₁, replica₁⟩, hhandle, h⟩ := h
      have hh := handled_handle hhandle
      have hrest := ih h
      constructor
      case others =>
        intro b hb
        rw [hrest.others b hb, hh.others b hb, node_modifyNode_of_ne hb]
      case operationTable =>
        rw [hrest.operationTable, hh.operationTable]
        simp
      case transID =>
        rw [hrest.transID, hh.transID]
        simp
      case resultTable =>
        intro t
        rw [hrest.resultTable, hh.resultTable, results_getElem?, grow_append, arrivals_cons htext,
          List.map_append]
        congr 2
        · simp
        · split <;> rfl
      case readValueTable =>
        intro t
        rw [hrest.readValueTable, hh.readValueTable, readValues_getElem?, grow_append,
          arrivals_cons htext, List.map_append]
        congr 2
        · simp
        · split <;> rfl
      case verdicts =>
        intro t
        rw [hrest.verdicts, hh.trace, verdicts_append]
        refine (congrArg _ (verdicts_eq_nil ?_)).trans (List.append_nil _)
        intro e he hco
        rw [isCoordinator_mem_events he] at hco
        cases hco

/-! ## Judging them -/

theorem verdicts_logged {e : LogEntry} : verdicts [.logged e] t =
    if e.isCoordinator = true ∧ e.transID = t then [e.success] else [] := by
  unfold verdicts
  rw [List.filterMap_cons, List.filterMap_nil]
  split <;> simp_all

theorem verdicts_log {a : Address} {op : Operation} {ok : Bool} {t' : Int32} {key : Str} :
    verdicts (w.log a true op ok t' key v).trace t =
      verdicts w.trace t ++ if t' = t then [ok] else [] := by
  rw [trace_log, verdicts_append, verdicts_logged]
  simp only [true_and]

/-- What `check_update_operations` logs about `t` when it finds these results. -/
def updateVerdict (uninit : ReplicaType) (operation : Option Str) (results : List Bool) :
    List Bool :=
  match operation.bind (Message.ofString uninit) with
  | some received =>
      if received.type = .create ∨ received.type = .update ∨ received.type = .delete then
        [decide (1 < results.count true)]
      else []
  | none => []

/-- What `check_read_operations` logs about `t` when it finds these values. -/
def readVerdict (uninit : ReplicaType) (operation : Option Str) (values : List Str) :
    List Bool :=
  match operation.bind (Message.ofString uninit), values.foldlM readValue ⟨0, [], false⟩ with
  | some received, some v =>
      if received.type = .read then
        [decide (1 < v.counter ∧ v.value ≠ [] ∧ v.moreThan1Value = false)]
      else []
  | _, _ => []

theorem verdicts_checkUpdate {x : Int32 × List Bool}
    (h : w.checkUpdate uninit self x = some w') : w'.node = w.node ∧
      verdicts w'.trace t = verdicts w.trace t ++
        if x.1 = t then updateVerdict uninit (w.node self).operationTable[t]? x.2 else [] := by
  unfold checkUpdate at h
  split at h
  case h_1 htable =>
    obtain rfl := Option.some.inj h
    refine ⟨rfl, ?_⟩
    split
    case isTrue ht => simp [updateVerdict, ← ht, htable]
    case isFalse => simp
  case h_2 text htable =>
    simp only [Option.bind_eq_bind, Option.bind_eq_some_iff, Option.pure_def,
      Option.some.injEq] at h
    obtain ⟨received, htext, rfl⟩ := h
    have hverdict : x.1 = t → updateVerdict uninit (w.node self).operationTable[t]? x.2 =
        if received.type = .create ∨ received.type = .update ∨ received.type = .delete then
          [decide (1 < x.2.count true)] else [] := by
      rintro rfl
      simp [updateVerdict, htable, htext]
    cases htype : received.type with
    | create | update | delete =>
        refine ⟨rfl, ?_⟩
        rw [verdicts_log]
        congr 1
        split
        case isTrue ht => simp [hverdict ht, htype]
        case isFalse => rfl
    | read | reply | readreply | other =>
        refine ⟨rfl, ?_⟩
        by_cases ht : x.1 = t
        · simp [hverdict ht, htype, ht]
        · simp [ht]

/-- The line that `check_read_operations` logs about the operation `t` when it finds these values.
-/
def readEvents (uninit : ReplicaType) (operation : Option Str) (now t : Int32)
    (values : List Str) : List Event :=
  match operation.bind (Message.ofString uninit), values.foldlM readValue ⟨0, [], false⟩ with
  | some received, some v =>
      if received.type = .read then
        let success := decide (1 < v.counter ∧ v.value ≠ [] ∧ v.moreThan1Value = false)
        [.logged ⟨received.fromAddr, true, .read, success, t, received.key,
          if success then v.value else [], now⟩]
      else []
  | _, _ => []

theorem checkRead_eq {x : Int32 × List Str} (h : w.checkRead uninit self x = some w') :
    w' = { w with
      trace := w.trace ++
        (readEvents uninit (w.node self).operationTable[x.1]? w.currtime x.1 x.2) } := by
  unfold checkRead at h
  split at h
  case h_1 htable =>
    obtain rfl := Option.some.inj h
    simp [readEvents, htable]
  case h_2 text htable =>
    simp only [Option.bind_eq_bind, Option.bind_eq_some_iff, Option.pure_def,
      Option.some.injEq] at h
    obtain ⟨received, htext, r, hr, rfl⟩ := h
    by_cases htype : received.type = .read
    · by_cases hgood : 1 < r.counter ∧ r.value ≠ [] ∧ r.moreThan1Value = false
      · simp [readEvents, htable, htext, hr, htype, hgood, log, emit]
      · rw [if_pos htype, if_neg hgood]
        simp [readEvents, htable, htext, hr, htype, decide_eq_false hgood, log, emit]
    · simp [readEvents, htable, htext, hr, htype]

theorem verdicts_readEvents {operation : Option Str} {now t' : Int32} {values : List Str} :
    verdicts (readEvents uninit operation now t' values) t =
      if t' = t then readVerdict uninit operation values else [] := by
  unfold readEvents readVerdict
  split
  case h_1 received r hreceived hr =>
    by_cases htype : received.type = .read
    · rw [if_pos htype, if_pos htype, verdicts_logged]
      simp only [true_and]
    · rw [if_neg htype, if_neg htype, ite_self]
      rfl
  case h_2 =>
    rw [ite_self]
    rfl

theorem verdicts_checkRead {x : Int32 × List Str} (h : w.checkRead uninit self x = some w') :
    w'.node = w.node ∧ verdicts w'.trace t = verdicts w.trace t ++
      if x.1 = t then readVerdict uninit (w.node self).operationTable[t]? x.2 else [] := by
  rw [checkRead_eq h, verdicts_append, verdicts_readEvents]
  refine ⟨rfl, ?_⟩
  split
  case isTrue ht => rw [ht]
  case isFalse => rfl

theorem flatMap_table {α β : Type*} {f : α → List β} (table : Std.TreeMap Int32 α) :
    table.toList.flatMap (fun x => if x.1 = t then f x.2 else []) = (table[t]?.map f).getD [] := by
  have hnodup : (table.toList.map Prod.fst).Nodup := by
    have h := Std.TreeMap.distinct_keys_toList (t := table)
    rw [List.Nodup, List.pairwise_map]
    exact h.imp fun hne heq => hne (Std.compare_eq_iff_eq.mpr heq)
  cases hget : table[t]? with
  | some v => exact flatMap_of_key hnodup (Std.TreeMap.mem_toList_iff_getElem?_eq_some.mpr hget)
  | none =>
      simp only [Option.map_none, Option.getD_none, List.flatMap_eq_nil_iff]
      intro x hx
      rw [if_neg]
      rintro rfl
      rw [Std.TreeMap.mem_toList_iff_getElem?_eq_some.mp hx] at hget
      cases hget

theorem verdicts_checkUpdateOperations (h : w.checkUpdateOperations uninit self = some w') :
    w'.node = (w.modifyNode self fun n => { n with resultTable := ∅ }).node ∧
    verdicts w'.trace t = verdicts w.trace t ++ ((w.node self).resultTable[t]?.map
      (updateVerdict uninit (w.node self).operationTable[t]?)).getD [] := by
  unfold checkUpdateOperations at h
  simp only [Option.bind_eq_bind, Option.bind_eq_some_iff, Option.pure_def,
    Option.some.injEq] at h
  obtain ⟨w₁, hfold, rfl⟩ := h
  let toCome : List (Int32 × List Bool) → List Bool := fun rest =>
    rest.flatMap fun x => if x.1 = t then
      updateVerdict uninit (w.node self).operationTable[t]? x.2 else []
  have hloop := foldlM_invariant (P := fun rest v => v.node = w.node ∧
    verdicts v.trace t ++ toCome rest = verdicts w.trace t ++ toCome (w.node self).resultTable.toList)
    (fun x rest v v' hP hstep => by
      obtain ⟨hnode, hverdicts⟩ := verdicts_checkUpdate (t := t) hstep
      refine ⟨hnode.trans hP.1, ?_⟩
      rw [← hP.2, hverdicts, hP.1, List.append_assoc]
      rfl)
    ⟨rfl, rfl⟩ hfold
  refine ⟨by rw [modifyNode, modifyNode, setNode, setNode, hloop.1], ?_⟩
  rw [← flatMap_table]
  exact (List.append_nil _).symm.trans hloop.2

/-- `check_read_operations` logs one line for each read it finds values of, and forgets them. -/
theorem checkReadOperations_eq (h : w.checkReadOperations uninit self = some w') :
    w' = { w.modifyNode self fun n => { n with readValueTable := ∅ } with
      trace := w.trace ++ (w.node self).readValueTable.toList.flatMap fun x =>
        readEvents uninit (w.node self).operationTable[x.1]? w.currtime x.1 x.2 } := by
  unfold checkReadOperations at h
  simp only [Option.bind_eq_bind, Option.bind_eq_some_iff, Option.pure_def,
    Option.some.injEq] at h
  obtain ⟨w₁, hfold, rfl⟩ := h
  let toCome : List (Int32 × List Str) → List Event := fun rest => rest.flatMap fun x =>
    readEvents uninit (w.node self).operationTable[x.1]? w.currtime x.1 x.2
  have hloop := foldlM_invariant (P := fun rest v => v.node = w.node ∧ v.currtime = w.currtime ∧
    { v with trace := v.trace ++ toCome rest } =
      { w with trace := w.trace ++ toCome (w.node self).readValueTable.toList })
    (fun x rest v v' hP hstep => by
      obtain ⟨hnode, htime, heq⟩ := hP
      obtain rfl := checkRead_eq hstep
      refine ⟨hnode, htime, heq ▸ ?_⟩
      simp [toCome, hnode, htime])
    ⟨rfl, rfl, rfl⟩ hfold
  obtain ⟨-, -, heq⟩ := hloop
  simp only [toCome, List.flatMap_nil, List.append_nil] at heq
  rw [show w₁ = _ from heq]
  rfl

theorem verdicts_checkReadOperations (h : w.checkReadOperations uninit self = some w') :
    w'.node = (w.modifyNode self fun n => { n with readValueTable := ∅ }).node ∧
    verdicts w'.trace t = verdicts w.trace t ++ ((w.node self).readValueTable[t]?.map
      (readVerdict uninit (w.node self).operationTable[t]?)).getD [] := by
  rw [checkReadOperations_eq h]
  refine ⟨rfl, ?_⟩
  rw [verdicts_append, ← flatMap_table]
  congr 1
  unfold verdicts
  rw [List.filterMap_flatMap]
  apply congrArg List.flatten
  apply List.map_congr_left
  intro x hx
  refine verdicts_readEvents.trans ?_
  split
  case isTrue ht => rw [ht]
  case isFalse => rfl

theorem decodes_checkUpdateOperations {results : List Bool} {text : Str}
    (h : w.checkUpdateOperations uninit self = some w')
    (hresults : (w.node self).resultTable[t]? = some results)
    (htable : (w.node self).operationTable[t]? = some text) :
    ∃ received, Message.ofString uninit text = some received := by
  unfold checkUpdateOperations at h
  obtain ⟨w₁, hfold, -⟩ := Option.bind_eq_some_iff.mp h
  have hmem := Std.TreeMap.mem_toList_iff_getElem?_eq_some.mpr hresults
  obtain ⟨v, v', hnode, hstep⟩ := foldlM_mem (P := fun v => v.node = w.node)
    (fun x v v' hv hstep => (verdicts_checkUpdate (t := 0) hstep).1.trans hv) rfl hfold hmem
  unfold checkUpdate at hstep
  rw [hnode, htable] at hstep
  obtain ⟨received, htext, -⟩ := Option.bind_eq_some_iff.mp hstep
  exact ⟨received, htext⟩

theorem decodes_checkReadOperations {values : List Str} {text : Str}
    (h : w.checkReadOperations uninit self = some w')
    (hvalues : (w.node self).readValueTable[t]? = some values)
    (htable : (w.node self).operationTable[t]? = some text) :
    ∃ received, Message.ofString uninit text = some received := by
  unfold checkReadOperations at h
  obtain ⟨w₁, hfold, -⟩ := Option.bind_eq_some_iff.mp h
  have hmem := Std.TreeMap.mem_toList_iff_getElem?_eq_some.mpr hvalues
  obtain ⟨v, v', hnode, hstep⟩ := foldlM_mem (P := fun v => v.node = w.node)
    (fun x v v' hv hstep => (verdicts_checkRead (t := 0) hstep).1.trans hv) rfl hfold hmem
  unfold checkRead at hstep
  rw [hnode, htable] at hstep
  obtain ⟨received, htext, -⟩ := Option.bind_eq_some_iff.mp hstep
  exact ⟨received, htext⟩

/-- What `checkMessages` leaves of the tables, and the verdicts it logs. -/
structure Checked (uninit : ReplicaType) (node : Address) (w w' : World) : Prop where
  others : ∀ b, b ≠ node → w'.node b = w.node b
  operationTable : (w'.node node).operationTable = (w.node node).operationTable
  resultTable : (w'.node node).resultTable = ∅
  readValueTable : (w'.node node).readValueTable = ∅
  decodes : ∀ t text, (w.node node).operationTable[t]? = some text →
    grow (w.node node).resultTable[t]? ((arrivals uninit
      (fun m => m.type = .reply ∧ m.transID = t) (w.node node).mp2q).map Message.success) ≠ none ∨
    grow (w.node node).readValueTable[t]? ((arrivals uninit
      (fun m => m.isReadReply = true ∧ m.transID = t) (w.node node).mp2q).map Message.value) ≠ none
    → ∃ received, Message.ofString uninit text = some received
  verdicts : ∀ t, verdicts w'.trace t = World.verdicts w.trace t ++
    ((grow (w.node node).resultTable[t]? ((arrivals uninit
      (fun m => m.type = .reply ∧ m.transID = t) (w.node node).mp2q).map Message.success)).map
      (updateVerdict uninit (w.node node).operationTable[t]?)).getD [] ++
    ((grow (w.node node).readValueTable[t]? ((arrivals uninit
      (fun m => m.isReadReply = true ∧ m.transID = t) (w.node node).mp2q).map Message.value)).map
      (readVerdict uninit (w.node node).operationTable[t]?)).getD []

theorem checked_checkMessages (h : w.checkMessages hash uninit self = some w') :
    Checked uninit self w w' := by
  unfold checkMessages at h
  simp only [Option.bind_eq_bind, Option.bind_eq_some_iff] at h
  obtain ⟨⟨w₁, replica⟩, hpop, w₂, hupdate, hread⟩ := h
  have hpopped := popped_popLoop hpop
  have hnode₂ := (verdicts_checkUpdateOperations (t := 0) hupdate).1
  have hnode₃ := (verdicts_checkReadOperations (t := 0) hread).1
  have htable : (w₁.node self).operationTable = (w.node self).operationTable :=
    hpopped.operationTable
  constructor
  case others =>
    intro b hb
    rw [hnode₃, node_modifyNode_of_ne hb, hnode₂, node_modifyNode_of_ne hb, hpopped.others b hb]
  case operationTable => simpa [hnode₃, hnode₂] using htable
  case resultTable => simp [hnode₃, hnode₂]
  case readValueTable => simp [hnode₃]
  case decodes =>
    intro t text htext hor
    rw [← hpopped.resultTable, ← hpopped.readValueTable] at hor
    rcases hor with hsome | hsome
    · obtain ⟨results, hresults⟩ := Option.ne_none_iff_exists'.mp hsome
      exact decodes_checkUpdateOperations hupdate hresults (by rw [htable, htext])
    · obtain ⟨values, hvalues⟩ := Option.ne_none_iff_exists'.mp hsome
      refine decodes_checkReadOperations (t := t) hread (show _ = some values from ?_) ?_
      · simpa [hnode₂] using hvalues
      · simpa [hnode₂, htable] using htext
  case verdicts =>
    intro t
    rw [(verdicts_checkReadOperations hread).2, (verdicts_checkUpdateOperations hupdate).2,
      hpopped.verdicts, hnode₂]
    simp only [node_modifyNode_self, hpopped.resultTable, hpopped.readValueTable, htable]

theorem foldlM_readValue (hv : v ≠ []) {values : List Str}
    (h : ∀ s ∈ values, ∃ e, Entry.ofString s = some e ∧ e.value = v) {n : Nat} {u : Str}
    (hu : u = [] ∨ u = v) : values.foldlM readValue ⟨n, u, false⟩ =
      some ⟨n + values.length, if values = [] then u else v, false⟩ := by
  induction values generalizing n u with
  | nil => rfl
  | cons s values ih =>
      obtain ⟨e, he, hev⟩ := h s List.mem_cons_self
      have hs : s ≠ [] := by
        rintro rfl
        cases he
      have hstep : readValue ⟨n, u, false⟩ s = some ⟨n + 1, v, false⟩ := by
        rcases hu with rfl | rfl
        · simp [readValue, hs, he, hev]
        · simp [readValue, hs, he, hev, hv]
      rw [List.foldlM_cons, hstep]
      refine (ih (fun s' hs' => h s' (List.mem_cons_of_mem _ hs')) (Or.inr rfl)).trans ?_
      simp [Nat.add_assoc, Nat.add_comm 1]

/-! ## Along a run -/

/-- The reply tables are empty, as they are between two calls of `checkMessages`. -/
def Settled (w : World) : Prop :=
  ∀ a, (w.node a).resultTable = ∅ ∧ (w.node a).readValueTable = ∅

theorem Settled.step {a : Action} (hs : Settled w) (h : w.step hash a = some w') :
    Settled w' := by
  cases a with
  | client self uninit request =>
      obtain ⟨r₀, r₁, r₂, -, rfl⟩ := client_some h
      intro b
      simpa using hs b
  | updateRing self memberList =>
      intro b
      obtain ⟨ring, ht, hb⟩ := (updateRing_frame h).1 b
      rw [hb]
      exact hs b
  | checkMessages self uninit =>
      have hchecked := checked_checkMessages h
      intro b
      by_cases hb : b = self
      · rw [hb]
        exact ⟨hchecked.resultTable, hchecked.readValueTable⟩
      · rw [hchecked.others b hb]
        exact hs b
  | receive p =>
      obtain ⟨-, rfl⟩ := step_receive h
      intro b
      simpa [receive] using hs b
  | lose p =>
      obtain ⟨-, rfl⟩ := step_lose h
      exact hs
  | tick =>
      obtain rfl := Option.some.inj h
      exact hs

theorem settled_of_steps {ok : World → Action → Prop} (h : Steps hash ok initial w) :
    Settled w := by
  refine invariant_of_run (P := Settled) ?_ h fun _ => ⟨rfl, rfl⟩
  rintro v v' ⟨_, -, hstep, -⟩ hs
  exact hs.step hstep

theorem node_step {a : Action} {b : Address} (hb : a.node ≠ some b)
    (h : w.step hash a = some w') : w'.node b = w.node b := by
  cases a with
  | client self uninit request =>
      obtain ⟨r₀, r₁, r₂, -, rfl⟩ := client_some h
      have hne : b ≠ self := fun heq => hb (by rw [heq, Action.node])
      simp [issued, node_modifyNode_of_ne hne]
  | updateRing self memberList =>
      exact updateRing_others h fun heq => hb (by rw [heq, Action.node])
  | checkMessages self uninit =>
      exact (checked_checkMessages h).others b fun heq => hb (by rw [heq, Action.node])
  | receive p =>
      obtain ⟨-, rfl⟩ := step_receive h
      have hne : b ≠ p.dst := fun heq => hb (by rw [heq, Action.node])
      simp [receive, node_modifyNode_of_ne hne]
  | lose p =>
      obtain ⟨-, rfl⟩ := step_lose h
      rfl
  | tick =>
      obtain rfl := Option.some.inj h
      rfl

theorem node_follow {ok : World → Action → Prop} [∀ w a, Decidable (ok w a)]
    {actions : List Action} {b : Address} (hb : ∀ a ∈ actions, a.node ≠ some b)
    (h : w.follow hash ok actions = some w') : w'.node b = w.node b := by
  have hloop := foldlM_invariant
    (P := fun rest v => v.node b = w.node b ∧ ∀ a ∈ rest, a.node ≠ some b) ?_ ⟨rfl, hb⟩ h
  · exact hloop.1
  rintro a rest v v' ⟨hnode, hrest⟩ hstep
  obtain ⟨-, hstep⟩ := Option.ite_none_right_eq_some.mp hstep
  obtain ⟨hstep, -⟩ := Option.filter_eq_some_iff.mp hstep
  exact ⟨(node_step (hrest a List.mem_cons_self) hstep).trans hnode,
    fun a' ha' => hrest a' (List.mem_cons_of_mem _ ha')⟩

/-- `c`, and no other node, has the operation in its table. -/
structure Coordinates (w : World) (c : Address) (type : MessageType) (t : Int32) : Prop where
  wire : Wire w
  settled : Settled w
  known : Known w t
  operation : ∃ m : Message, m.type = type ∧ (w.node c).operationTable[t]? = some m.toString
  others : ∀ a, a ≠ c → (w.node a).operationTable[t]? = none

theorem operationTable_step {a : Action} (hknown : Known w t) (hlt : w'.transID < 2 ^ 31)
    (h : w.step hash a = some w') (b : Address) :
    (w'.node b).operationTable[t]? = (w.node b).operationTable[t]? := by
  cases a with
  | client self uninit request =>
      obtain ⟨r₀, r₁, r₂, -, rfl⟩ := client_some h
      have hne : w.nextTransID.gTransID ≠ t := (hknown.ne_next hlt).symm
      by_cases hb : b = self
      · subst hb
        simp [issued, Std.TreeMap.getElem?_insert, hne]
      · simp [issued, node_modifyNode_of_ne hb]
  | updateRing self memberList =>
      obtain ⟨ring, ht, hb⟩ := (updateRing_frame h).1 b
      rw [hb]
  | checkMessages self uninit =>
      have hchecked := checked_checkMessages h
      by_cases hb : b = self
      · rw [hb, hchecked.operationTable]
      · rw [hchecked.others b hb]
  | receive p =>
      obtain ⟨-, rfl⟩ := step_receive h
      simp [receive]
  | lose p =>
      obtain ⟨-, rfl⟩ := step_lose h
      rfl
  | tick =>
      obtain rfl := Option.some.inj h
      rfl

theorem Coordinates.step {a : Action} (hc : Coordinates w c type t) (hlt : w'.transID < 2 ^ 31)
    (h : w.step hash a = some w') : Coordinates w' c type t where
  wire := hc.wire.step h
  settled := hc.settled.step h
  known := hc.known.mono (transID_le_of_step hc.wire h)
  operation := by
    rw [operationTable_step hc.known hlt h]
    exact hc.operation
  others := by
    intro a ha
    rw [operationTable_step hc.known hlt h]
    exact hc.others a ha

/-- The verdict on what one call of `checkMessages` has collected. -/
def verdictOn (batch : List Message) : List Bool :=
  if batch = [] then [] else [decide (1 < batch.length)]

theorem arrivals_congr {p q : Message → Prop} [DecidablePred p] [DecidablePred q]
    (h : ∀ m, p m ↔ q m) {queue : List Str} :
    arrivals uninit p queue = arrivals uninit q queue := by
  unfold arrivals
  congr 1
  funext s
  congr 1
  funext m
  exact decide_eq_decide.mpr (h m)

theorem grow_none {α : Type*} {l : List α} : grow none l = if l = [] then none else some l := by
  unfold grow
  split <;> simp

/-- One call of `checkMessages` at the coordinator of a `READ`, when all replies confirm. -/
theorem Coordinates.verdict_read (hc : Coordinates w c .read t) (hv : v ≠ [])
    (h : w.checkMessages hash uninit c = some w')
    (hgood : ∀ m ∈ arrivals uninit (Message.RepliesTo .read t) (w.node c).mp2q,
      m.Confirms .read v) :
    verdicts w'.trace t = verdicts w.trace t ++
      verdictOn (arrivals uninit (Message.RepliesTo .read t) (w.node c).mp2q) := by
  have hchecked := checked_checkMessages h
  obtain ⟨m, hmtype, htable⟩ := hc.operation
  have hbatch : arrivals uninit (fun m => m.isReadReply = true ∧ m.transID = t) (w.node c).mp2q =
      arrivals uninit (Message.RepliesTo .read t) (w.node c).mp2q :=
    arrivals_congr fun m => by simp [Message.RepliesTo, and_comm]
  have hupdate : updateVerdict uninit (some m.toString) = fun _ => [] := by
    funext results
    unfold updateVerdict
    split
    case h_1 received hreceived =>
      have htype := (Message.ofString_toString_some hreceived).1
      simp [htype, hmtype]
    case h_2 => rfl
  have hdecodes := hchecked.decodes t _ htable
  rw [hchecked.verdicts, htable, hupdate]
  rw [hbatch] at hdecodes ⊢
  generalize arrivals uninit (Message.RepliesTo .read t) (w.node c).mp2q = batch at *
  have hnil : ∀ o : Option (List Bool), (o.map fun _ => ([] : List Bool)).getD [] = [] := by
    intro o
    cases o <;> rfl
  rw [hnil, List.append_nil, (hc.settled c).2, Std.TreeMap.getElem?_emptyc, grow_none]
  by_cases hempty : batch = []
  · simp [verdictOn, hempty]
  · have hsome : grow (w.node c).readValueTable[t]? (batch.map Message.value) ≠ none := by
      rw [(hc.settled c).2, Std.TreeMap.getElem?_emptyc, grow_none]
      simp [hempty]
    obtain ⟨received, htext⟩ := hdecodes (Or.inr hsome)
    have hvalues : ∀ s ∈ batch.map Message.value, ∃ e, Entry.ofString s = some e ∧ e.value = v := by
      intro s hs
      obtain ⟨m, hm, rfl⟩ := List.mem_map.mp hs
      have hconfirms := hgood m hm
      rw [Message.Confirms, if_pos rfl, Option.map_eq_some_iff] at hconfirms
      exact hconfirms
    have hfold := foldlM_readValue hv hvalues (n := 0) (u := []) (Or.inl rfl)
    have htype : received.type = .read := (Message.ofString_toString_some htext).1.trans hmtype
    simp [readVerdict, verdictOn, hempty, htext, hfold, htype, hv]

theorem Coordinates.verdict_write (hc : Coordinates w c type t)
    (htype : type = .create ∨ type = .update ∨ type = .delete)
    (h : w.checkMessages hash uninit c = some w')
    (hgood : ∀ m ∈ arrivals uninit (Message.RepliesTo type t) (w.node c).mp2q,
      m.Confirms type v) :
    verdicts w'.trace t = verdicts w.trace t ++
      verdictOn (arrivals uninit (Message.RepliesTo type t) (w.node c).mp2q) := by
  have hne : type ≠ .read := by
    rintro rfl
    simp at htype
  have hchecked := checked_checkMessages h
  obtain ⟨m, hmtype, htable⟩ := hc.operation
  have hbatch : arrivals uninit (fun m => m.type = .reply ∧ m.transID = t) (w.node c).mp2q =
      arrivals uninit (Message.RepliesTo type t) (w.node c).mp2q :=
    arrivals_congr fun m => by simp [Message.RepliesTo, and_comm, hne]
  have hread : readVerdict uninit (some m.toString) = fun _ => [] := by
    funext values
    unfold readVerdict
    split
    case h_1 received r hreceived hr =>
      have hsame := (Message.ofString_toString_some hreceived).1
      simp [hsame, hmtype, hne]
    case h_2 => rfl
  have hdecodes := hchecked.decodes t _ htable
  rw [hchecked.verdicts, htable, hread]
  rw [hbatch] at hdecodes ⊢
  generalize arrivals uninit (Message.RepliesTo type t) (w.node c).mp2q = batch at *
  have hnil : ∀ o : Option (List Str), (o.map fun _ => ([] : List Bool)).getD [] = [] := by
    intro o
    cases o <;> rfl
  rw [hnil, List.append_nil, (hc.settled c).1, Std.TreeMap.getElem?_emptyc, grow_none]
  by_cases hempty : batch = []
  · simp [verdictOn, hempty]
  · have hsome : grow (w.node c).resultTable[t]? (batch.map Message.success) ≠ none := by
      rw [(hc.settled c).1, Std.TreeMap.getElem?_emptyc, grow_none]
      simp [hempty]
    obtain ⟨received, htext⟩ := hdecodes (Or.inl hsome)
    have hcount : (batch.map Message.success).count true = batch.length := by
      rw [List.count, List.countP_map, List.countP_eq_length]
      intro m hm
      simpa [Message.Confirms, hne] using hgood m hm
    have hsame : received.type = type := (Message.ofString_toString_some htext).1.trans hmtype
    simp [updateVerdict, verdictOn, hempty, htext, hcount, hsame, htype]

/-- Only `checkMessages` of the coordinator comes to a verdict on the operation. -/
theorem Coordinates.quiet {a : Action} (hc : Coordinates w c type t)
    (ha : ∀ u, a ≠ .checkMessages c u) (h : w.step hash a = some w') :
    verdicts w'.trace t = verdicts w.trace t := by
  cases a with
  | client self uninit request =>
      obtain ⟨r₀, r₁, r₂, -, rfl⟩ := client_some h
      rfl
  | updateRing self memberList =>
      obtain ⟨-, l, htrace, hl⟩ := updateRing_frame h
      rw [htrace, verdicts_append]
      refine (congrArg _ (verdicts_eq_nil ?_)).trans (List.append_nil _)
      intro e he hco
      rw [hl e he] at hco
      cases hco
  | checkMessages self uninit =>
      have hself : self ≠ c := by
        rintro rfl
        exact ha uninit rfl
      rw [(checked_checkMessages h).verdicts, hc.others self hself]
      have hupdate : updateVerdict uninit none = fun _ => [] := rfl
      have hread : readVerdict uninit none = fun _ => [] := rfl
      rw [hupdate, hread]
      cases grow (w.node self).resultTable[t]? _ <;>
        cases grow (w.node self).readValueTable[t]? _ <;> simp
  | receive p =>
      obtain ⟨-, rfl⟩ := step_receive h
      rfl
  | lose p =>
      obtain ⟨-, rfl⟩ := step_lose h
      rfl
  | tick =>
      obtain rfl := Option.some.inj h
      rfl

theorem run_transID_le {actions : List Action} (hw : Wire w)
    (h : w.run hash actions = some w') : w.transID ≤ w'.transID := by
  have hloop := foldlM_invariant (P := fun _ v => Wire v ∧ w.transID ≤ v.transID)
    (fun a _ v v' hv hstep =>
      ⟨hv.1.step hstep, hv.2.trans (transID_le_of_step hv.1 hstep)⟩) ⟨hw, le_refl _⟩ h
  exact hloop.2

/-- The verdicts of a run are those on its batches. -/
theorem Coordinates.verdicts_run {actions : List Action} (hc : Coordinates w c type t)
    (htype : type = .create ∨ type = .read ∨ type = .update ∨ type = .delete) (hv : v ≠ [])
    (h : w.run hash actions = some w') (hlt : w'.transID < 2 ^ 31)
    (hgood : ∀ b ∈ batches hash c type t w actions, ∀ m ∈ b, m.Confirms type v) :
    verdicts w'.trace t =
      verdicts w.trace t ++ (batches hash c type t w actions).flatMap verdictOn := by
  induction actions generalizing w with
  | nil =>
      obtain rfl := Option.some.inj h
      simp [batches]
  | cons a actions ih =>
      obtain ⟨w₁, hstep, hrest⟩ := foldlM_cons_some h
      have hw₁ := hc.wire.step hstep
      have hc₁ := hc.step (lt_of_le_of_lt (run_transID_le hw₁ hrest) hlt) hstep
      by_cases ha : ∃ u, a = .checkMessages c u
      · obtain ⟨u, rfl⟩ := ha
        have hbatches : batches hash c type t w (.checkMessages c u :: actions) =
            arrivals u (Message.RepliesTo type t) (w.node c).mp2q ::
              batches hash c type t w₁ actions := by
          simp [batches, hstep]
        rw [hbatches] at hgood ⊢
        have hhead := hgood _ List.mem_cons_self
        have hverdict : verdicts w₁.trace t = verdicts w.trace t ++
            verdictOn (arrivals u (Message.RepliesTo type t) (w.node c).mp2q) := by
          by_cases hread : type = .read
          · subst hread
            exact hc.verdict_read hv hstep hhead
          · exact hc.verdict_write (by simpa [hread] using htype) hstep hhead
        rw [ih hc₁ hrest fun b hb => hgood b (List.mem_cons_of_mem _ hb), hverdict, List.flatMap_cons,
          List.append_assoc]
      · have hne : ∀ u, a ≠ .checkMessages c u := fun u hu => ha ⟨u, hu⟩
        have hbatches : batches hash c type t w (a :: actions) =
            batches hash c type t w₁ actions := by
          cases a with
          | checkMessages self u =>
              have hself : self ≠ c := by
                rintro rfl
                exact hne u rfl
              simp [batches, hstep, hself]
          | client | updateRing | receive | lose | tick => simp [batches, hstep]
        rw [hbatches] at hgood ⊢
        rw [ih hc₁ hrest hgood, hc.quiet hne hstep]

theorem flatMap_verdictOn_iff {l : List (List Message)} (h : l.flatten.length = 3) :
    l.flatMap verdictOn = [true] ↔ ∃ b ∈ l, b.length = 3 := by
  induction l with
  | nil => simp at h
  | cons b l ih =>
      rw [List.flatten_cons, List.length_append] at h
      rw [List.flatMap_cons]
      by_cases hb : b = []
      · subst hb
        simp only [verdictOn, if_true, List.nil_append, List.mem_cons, exists_eq_or_imp,
          List.length_nil]
        rw [ih (by simpa using h)]
        simp
      · have hpos := List.length_pos_of_ne_nil hb
        have hhead : verdictOn b = [decide (1 < b.length)] := by simp [verdictOn, hb]
        rw [hhead]
        constructor
        · intro heq
          have hrest : l.flatMap verdictOn = [] := (List.cons.inj heq).2
          have hempty : ∀ b' ∈ l, b' = [] := by
            intro b' hb'
            have := List.flatMap_eq_nil_iff.mp hrest b' hb'
            by_contra hne
            simp [verdictOn, hne] at this
          have hflat : l.flatten = [] := List.flatten_eq_nil_iff.mpr hempty
          rw [hflat, List.length_nil] at h
          exact ⟨b, List.mem_cons_self, h⟩
        · rintro ⟨b', hb', hlen⟩
          rcases List.mem_cons.mp hb' with rfl | hb'
          · have hflat : l.flatten = [] := List.length_eq_zero_iff.mp (by omega)
            have hrest : l.flatMap verdictOn = [] := by
              rw [List.flatMap_eq_nil_iff]
              intro b'' hb''
              rw [List.flatten_eq_nil_iff.mp hflat b'' hb'']
              rfl
            rw [hrest, hlen]
            rfl
          · have hle : b'.length ≤ l.flatten.length :=
              (List.sublist_flatten_of_mem hb').length_le
            omega

theorem coordinates_client {request : Request} (hreach : Steps hash Anything initial w)
    (h : w.client hash c uninit request = some w') (hlt : w'.transID < 2 ^ 31) :
    Coordinates w' c request.type w'.gTransID := by
  obtain ⟨hw, hn⟩ := reachable_invariants hreach
  have hs := settled_of_steps hreach
  obtain ⟨r₀, r₁, r₂, -, rfl⟩ :=
    dispatch_some ((client_eq_dispatch w c uninit request).symm.trans h)
  refine ⟨hw.step (a := .client c uninit request) h, hs.step (a := .client c uninit request) h,
    known_next, ⟨request.message c uninit w.nextTransID.gTransID, ?_, ?_⟩, fun a ha => ?_⟩
  · cases request <;> rfl
  · simp [issued, gTransID]
  · have hnot : w.nextTransID.gTransID ∉ (w.node a).operationTable := fun hmem =>
      (hn.operation a _ hmem).ne_next hlt rfl
    have hget := Std.TreeMap.getElem?_eq_none hnot
    simpa [issued, node_modifyNode_of_ne ha, gTransID] using hget

/-- In the run `actions` from `w`, where `c` has just issued the request, `c` takes three replies
to it off its queue, and they all confirm it. -/
structure Answered (hash : Str → Nat) (c : Address) (request : Request) (v : Str) (w₀ w : World)
    (actions : List Action) (w' : World) : Prop where
  reached : Steps hash Anything initial w₀
  issued : ∃ uninit, w₀.client hash c uninit request = some w
  run : w.run hash actions = some w'
  bound : w'.transID < 2 ^ 31
  value : v ≠ []
  confirmed : ∀ b ∈ batches hash c request.type w.gTransID w actions, ∀ m ∈ b,
    m.Confirms request.type v
  three : (batches hash c request.type w.gTransID w actions).flatten.length = 3

/-- The coordinator logs one success and no other verdict exactly when one call of
`checkMessages` takes all three replies. -/
theorem one_verdict_iff {request : Request} {w₀ : World} {actions : List Action}
    (h : Answered hash c request v w₀ w actions w') :
    verdicts w'.trace w.gTransID = [true] ↔
      ∃ b ∈ batches hash c request.type w.gTransID w actions, b.length = 3 := by
  obtain ⟨uninit, hissued⟩ := h.issued
  have hw : Wire w :=
    (reachable_invariants h.reached).1.step (a := .client c uninit request) hissued
  have hlt := lt_of_le_of_lt (run_transID_le hw h.run) h.bound
  have hc := coordinates_client h.reached hissued hlt
  have htype : request.type = .create ∨ request.type = .read ∨ request.type = .update ∨
      request.type = .delete := by
    cases request <;> simp [Request.type]
  -- nothing was logged about a new id
  have hfresh : verdicts w.trace w.gTransID = [] := by
    have hn := (reachable_invariants h.reached).2
    obtain ⟨r₀, r₁, r₂, -, rfl⟩ := client_some hissued
    exact verdicts_eq_nil fun e he hco => (hn.verdict e he hco).ne_next hlt
  rw [hc.verdicts_run htype h.value h.run h.bound h.confirmed, hfresh, List.nil_append]
  exact flatMap_verdictOn_iff h.three

/-! ## Two runs of three nodes -/

/-- Three nodes that know their ring. -/
def batchStart : World :=
  (initial.follow sampleHash Anything
    ([1, 2, 3].map fun i => .updateRing (sampleNode i) (sampleMembers 3))).get (by decide +kernel)

def batchIssued : World :=
  (batchStart.client sampleHash (sampleNode 1) .primary (.create ['k'] ['u'])).get
    (by decide +kernel)

def batchActions (parts : List (List Nat)) : List Action :=
  let create : Message := ⟨.create, .primary, ['k'], ['u'], sampleNode 1, 1, false⟩
  let reply (i : Nat) : Message := ⟨.reply, .primary, [], [], sampleNode i, 1, true⟩
  [1, 2, 3].map (fun i => .receive (create.packet (sampleNode i))) ++
  [1, 2, 3].map (fun i => .checkMessages (sampleNode i) .primary) ++
  parts.flatMap fun part => part.map (fun i => .receive ((reply i).packet (sampleNode 1))) ++
    [.checkMessages (sampleNode 1) .primary]

/-- One call takes all replies. -/
theorem one_verdict_iff_jointly :
    verdicts ((batchIssued.run sampleHash (batchActions [[1, 2, 3]])).get
      (by decide +kernel)).trace 1 = [true] ↔
    ∃ b ∈ batches sampleHash (sampleNode 1) .create 1 batchIssued (batchActions [[1, 2, 3]]),
      b.length = 3 :=
  one_verdict_iff (v := ['u']) (c := sampleNode 1) (w := batchIssued)
    { reached := steps_of_follow (Option.some_get _).symm
      issued := ⟨.primary, (Option.some_get _).symm⟩
      run := (Option.some_get _).symm
      bound := by decide +kernel
      value := by decide
      confirmed := by decide +kernel
      three := by decide +kernel }

/-- The replies of nodes `1` and `2` and the reply of node `3` get a verdict each. -/
theorem two_verdicts : ¬ ∀ (hash : Str → Nat) (c : Address) (request : Request) (v : Str)
    (w₀ w : World) (actions : List Action) (w' : World),
    Answered hash c request v w₀ w actions w' → verdicts w'.trace w.gTransID = [true] := by
  intro hclaim
  have hverdicts := hclaim sampleHash (sampleNode 1) (.create ['k'] ['u']) ['u'] batchStart
    batchIssued (batchActions [[1, 2], [3]])
    ((batchIssued.run sampleHash (batchActions [[1, 2], [3]])).get (by decide +kernel))
    { reached := steps_of_follow (Option.some_get _).symm
      issued := ⟨.primary, (Option.some_get _).symm⟩
      run := (Option.some_get _).symm
      bound := by decide +kernel
      value := by decide
      confirmed := by decide +kernel
      three := by decide +kernel }
  revert hverdicts
  decide +kernel

end World

end CloudComputing.KeyValueStore
