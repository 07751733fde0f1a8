import CloudComputing.KeyValueStore.System
import CloudComputing.KeyValueStore.Verdict
import CloudComputing.KeyValueStore.Writes

/-!
# The verdict on a read

The loop of `check_read_operations` counts the entries it is given, remembers the
first value and notes whether another one follows.  The empty string stands for
no value yet, so entries with the empty value in front are counted and then
forgotten, and any second value spoils the read.
-/

namespace CloudComputing.KeyValueStore

open Lib

/-- A `READREPLY` of a node brings nothing, or the text of an entry whose value has no colon. -/
def WellFormedReply (s : Str) : Prop :=
  s = [] ∨ ∃ e : Entry, ':' ∉ e.value ∧ s = e.convertToString

def entryValues (replies : List Str) : List Str :=
  replies.filterMap fun s => (Entry.ofString s).map Entry.value

theorem WellFormedReply.readable {s : Str} (h : WellFormedReply s) : Readable s := by
  rcases h with hnil | ⟨e, he, rfl⟩
  · exact Or.inl hnil
  · exact Or.inr ⟨e.value, decodes_entry he e.timestamp e.replica⟩

theorem ofString_nil : Entry.ofString [] = none := by decide

theorem countP_decodes (replies : List Str) (v : Str) :
    replies.countP (fun s => Decodes s v) = (entryValues replies).count v := by
  unfold entryValues Decodes
  rw [List.count_filterMap]
  apply List.countP_congr
  intro s _
  simp

theorem mem_entryValues {replies : List Str} {d : Str} :
    d ∈ entryValues replies ↔ ∃ s ∈ replies, Decodes s d := by
  unfold entryValues Decodes
  rw [List.mem_filterMap]

namespace World

/-! ## The loop over the values -/

/-- One turn of the loop, for an entry with this value. -/
def noteValue (v : ReadValues) (value : Str) : ReadValues :=
  let v := { v with counter := v.counter + 1 }
  if v.moreThan1Value = false ∧ v.value = [] then { v with value := value }
  else if v.value ≠ [] ∧ v.value ≠ value then { v with moreThan1Value := true }
  else v

/-- What the loop ends with when the coordinator is to log `value`. -/
def Accepts (v : ReadValues) (value : Str) : Prop :=
  1 < v.counter ∧ v.value ≠ [] ∧ v.moreThan1Value = false ∧ v.value = value

theorem readValue_entry {s d : Str} (h : Decodes s d) (v : ReadValues) :
    readValue v s = some (noteValue v d) := by
  obtain ⟨e, he, rfl⟩ := Option.map_eq_some_iff.mp h
  unfold readValue
  rw [if_neg h.ne_nil, he]
  rfl

/-- Nothing is thrown on replies that can be read, and only their values count. -/
theorem foldlM_readValue_eq {replies : List Str} (h : ∀ s ∈ replies, Readable s)
    (v : ReadValues) :
    replies.foldlM readValue v = some ((entryValues replies).foldl noteValue v) := by
  induction replies generalizing v with
  | nil => rfl
  | cons s replies ih =>
      have hrest : ∀ s ∈ replies, Readable s := fun s hs => h s (List.mem_cons_of_mem _ hs)
      rw [List.foldlM_cons]
      rcases h s List.mem_cons_self with rfl | ⟨d, hdecodes⟩
      · have hskip : entryValues ([] :: replies) = entryValues replies := by
          simp [entryValues, ofString_nil]
        rw [hskip, ← ih hrest]
        rfl
      · have hhead : entryValues (s :: replies) = d :: entryValues replies :=
          List.filterMap_cons_some hdecodes
        rw [hhead, List.foldl_cons, ← ih hrest, readValue_entry hdecodes]
        rfl

theorem foldl_noteValue {value : Str} (hvalue : value ≠ []) (values : List Str) (n : Nat)
    (more : Bool) : values.foldl noteValue ⟨n, value, more⟩ =
      ⟨n + values.length, value, more || values.any fun d => d ≠ value⟩ := by
  induction values generalizing n more with
  | nil => simp
  | cons d values ih =>
      have hturn : noteValue ⟨n, value, more⟩ d = ⟨n + 1, value, more || decide (d ≠ value)⟩ := by
        by_cases hd : d = value
        · simp [noteValue, hvalue, hd]
        · simp [noteValue, hvalue, hd, Ne.symm hd]
      rw [List.foldl_cons, hturn, ih, List.length_cons, List.any_cons, Bool.or_assoc]
      congr 1
      omega

/-- The values that are accepted: copies of one value, after any number of empty ones. -/
theorem accepts_iff {values : List Str} {v : Str} {n : Nat} :
    Accepts (values.foldl noteValue ⟨n, [], false⟩) v ↔ v ≠ [] ∧ ∃ a b, 0 < b ∧ 1 < n + (a + b) ∧
      values = List.replicate a [] ++ List.replicate b v := by
  induction values generalizing n with
  | nil =>
      constructor
      · intro h
        exact absurd rfl h.2.1
      · intro ⟨hv, a, b, hb, hlt, heq⟩
        have hlen := congrArg List.length heq
        simp only [List.length_nil, List.length_append, List.length_replicate] at hlen
        omega
  | cons d values ih =>
      rw [List.foldl_cons]
      by_cases hd : d = []
      · subst hd
        rw [show noteValue ⟨n, [], false⟩ [] = ⟨n + 1, [], false⟩ from rfl, ih]
        refine and_congr_right fun hv => ?_
        constructor
        · intro ⟨a, b, hb, hlt, heq⟩
          exact ⟨a + 1, b, hb, by omega, by rw [heq, List.replicate_succ, List.cons_append]⟩
        · intro ⟨a, b, hb, hlt, heq⟩
          cases a with
          | zero =>
              obtain ⟨b, rfl⟩ := Nat.exists_eq_succ_of_ne_zero hb.ne'
              rw [List.replicate_zero, List.nil_append, List.replicate_succ, List.cons.injEq] at heq
              exact absurd heq.1.symm hv
          | succ a =>
              rw [List.replicate_succ, List.cons_append, List.cons.injEq] at heq
              exact ⟨a, b, hb, by omega, heq.2⟩
      · have hturn : noteValue ⟨n, [], false⟩ d = ⟨n + 1, d, false⟩ := rfl
        rw [hturn, foldl_noteValue hd]
        constructor
        · intro ⟨hcounter, hne, hmore, hvalue⟩
          simp only at hcounter hmore hvalue
          subst hvalue
          refine ⟨hd, 0, values.length + 1, by omega, by omega, ?_⟩
          rw [List.replicate_zero, List.nil_append, List.replicate_succ, List.cons.injEq,
            List.eq_replicate_iff]
          refine ⟨rfl, rfl, ?_⟩
          simpa using hmore
        · intro ⟨hv, a, b, hb, hlt, heq⟩
          cases a with
          | succ a =>
              rw [List.replicate_succ, List.cons_append, List.cons.injEq] at heq
              exact absurd heq.1 hd
          | zero =>
              obtain ⟨b, rfl⟩ := Nat.exists_eq_succ_of_ne_zero hb.ne'
              rw [List.replicate_zero, List.nil_append, List.replicate_succ, List.cons.injEq] at heq
              obtain ⟨rfl, rfl⟩ := heq
              exact ⟨by simp only [List.length_replicate]; omega, hd, by simp, rfl⟩

/-! ## The line that is logged -/

def LogsRead (w w' : World) (t : Int32) (value : Str) : Prop :=
  ∃ events, w'.trace = w.trace ++ events ∧ ∃ e, .logged e ∈ events ∧ e.isCoordinator = true ∧
    e.operation = .read ∧ e.success = true ∧ e.transID = t ∧ e.value = value

/-- The node has issued the `READ` with id `t` and noted these replies to it. -/
structure Awaits (uninit : ReplicaType) (w : World) (c : Address) (t : Int32)
    (replies : List Str) : Prop where
  operation : ∃ text received, (w.node c).operationTable[t]? = some text ∧
    Message.ofString uninit text = some received ∧ received.type = .read
  noted : (w.node c).readValueTable[t]? = some replies
  wellFormed : ∀ s ∈ replies, WellFormedReply s

variable {uninit : ReplicaType} {w w' : World} {self : Address} {t : Int32} {replies : List Str}
  {v : Str}

theorem mem_readEvents {operation : Option Str} {now : Int32} {values : List Str} {e : LogEntry} :
    .logged e ∈ readEvents uninit operation now t values ↔ ∃ received r,
      operation.bind (Message.ofString uninit) = some received ∧
      values.foldlM readValue ⟨0, [], false⟩ = some r ∧ received.type = .read ∧
      e = ⟨received.fromAddr, true, .read,
        decide (1 < r.counter ∧ r.value ≠ [] ∧ r.moreThan1Value = false), t, received.key,
        if 1 < r.counter ∧ r.value ≠ [] ∧ r.moreThan1Value = false then r.value else [], now⟩ := by
  unfold readEvents
  split
  case h_1 received r hreceived hr =>
    rw [hreceived, hr]
    by_cases htype : received.type = .read
    · simp [htype]
    · simp [htype]
  case h_2 hnone =>
    simp only [List.not_mem_nil, false_iff]
    intro ⟨received, r, hreceived, hr, _⟩
    exact hnone received r hreceived hr

/-- Only the replies to the operation itself decide what is logged about it. -/
theorem logsRead_iff (h : w.checkReadOperations uninit self = some w')
    (ha : Awaits uninit w self t replies) :
    LogsRead w w' t v ↔ Accepts ((entryValues replies).foldl noteValue ⟨0, [], false⟩) v := by
  obtain ⟨text, received, htext, hreceived, htype⟩ := ha.operation
  have hfold := foldlM_readValue_eq (fun s hs => (ha.wellFormed s hs).readable) ⟨0, [], false⟩
  have hevent : ∀ e : LogEntry, e.transID = t → (.logged e ∈
      (w.node self).readValueTable.toList.flatMap (fun x =>
        readEvents uninit (w.node self).operationTable[x.1]? w.currtime x.1 x.2) ↔
      .logged e ∈ readEvents uninit (some text) w.currtime t replies) := by
    intro e he
    rw [List.mem_flatMap]
    constructor
    · intro ⟨x, hx, hmem⟩
      obtain ⟨_, _, _, _, _, heq⟩ := mem_readEvents.mp hmem
      have hid : x.1 = t := by
        rw [← he, heq]
      have hget := Std.TreeMap.mem_toList_iff_getElem?_eq_some.mp hx
      rw [hid, ha.noted, Option.some.injEq] at hget
      rwa [hid, htext, ← hget] at hmem
    · intro hmem
      exact ⟨(t, replies), Std.TreeMap.mem_toList_iff_getElem?_eq_some.mpr ha.noted,
        by rwa [htext]⟩
  have htrace : w'.trace = w.trace ++ _ := congrArg World.trace (checkReadOperations_eq h)
  constructor
  · intro ⟨events, hevents, e, he, _, _, hsuccess, hid, hvalue⟩
    obtain rfl := List.append_cancel_left (hevents.symm.trans htrace)
    obtain ⟨_, r, _, hr, _, heq⟩ := mem_readEvents.mp ((hevent e hid).mp he)
    obtain rfl := Option.some.inj (hfold.symm.trans hr)
    subst heq
    have hgood := of_decide_eq_true hsuccess
    rw [if_pos hgood] at hvalue
    exact ⟨hgood.1, hgood.2.1, hgood.2.2, hvalue⟩
  · intro ⟨hcounter, hne, hmore, hvalue⟩
    refine ⟨_, htrace, _, (hevent _ rfl).mpr (mem_readEvents.mpr ⟨received, _, hreceived, hfold,
      htype, rfl⟩), rfl, rfl, ?_, rfl, ?_⟩
    · exact decide_eq_true ⟨hcounter, hne, hmore⟩
    · rwa [if_pos ⟨hcounter, hne, hmore⟩]

/-- Every operation under way has a text that can be read, and every reply noted is well formed. -/
structure Legible (uninit : ReplicaType) (w : World) (c : Address) : Prop where
  operation : ∀ (t : Int32) text, (w.node c).operationTable[t]? = some text →
    ∃ received, Message.ofString uninit text = some received
  noted : ∀ (t : Int32) replies, (w.node c).readValueTable[t]? = some replies →
    ∀ s ∈ replies, WellFormedReply s

theorem checkReadOperations_isSome
    (hoperation : ∀ (t : Int32) text, (w.node self).operationTable[t]? = some text →
      ∃ received, Message.ofString uninit text = some received)
    (hnoted : ∀ (t : Int32) replies, (w.node self).readValueTable[t]? = some replies →
      ∀ s ∈ replies, Readable s) : ∃ w', w.checkReadOperations uninit self = some w' := by
  have hloop := foldlM_total (f := checkRead uninit self)
    (P := fun rest v => v.node = w.node ∧ ∀ x ∈ rest, x ∈ (w.node self).readValueTable.toList)
    (l := (w.node self).readValueTable.toList) (s := w) (by
      intro x rest v ⟨hnode, hrest⟩
      have hget := Std.TreeMap.mem_toList_iff_getElem?_eq_some.mp (hrest x List.mem_cons_self)
      have hfold := foldlM_readValue_eq (hnoted x.1 x.2 hget) ⟨0, [], false⟩
      have hturn : ∃ v', v.checkRead uninit self x = some v' := by
        unfold checkRead
        rw [hnode]
        cases htable : (w.node self).operationTable[x.1]? with
        | none => exact ⟨v, rfl⟩
        | some text =>
            obtain ⟨received, htext⟩ := hoperation x.1 text htable
            simp [htext, hfold]
      obtain ⟨v', hv'⟩ := hturn
      refine ⟨v', hv', ?_, fun y hy => hrest y (List.mem_cons_of_mem x hy)⟩
      rw [(verdicts_checkRead (t := 0) hv').1, hnode])
    ⟨rfl, fun x hx => hx⟩
  obtain ⟨w₁, hfold, -⟩ := hloop
  exact ⟨_, by rw [checkReadOperations, hfold]; rfl⟩

theorem checkReadOperations_total (h : Legible uninit w self) :
    ∃ w', w.checkReadOperations uninit self = some w' :=
  checkReadOperations_isSome h.operation fun t replies hreplies s hs =>
    (h.noted t replies hreplies s hs).readable

/-! ## A node with replies -/

def sampleRead : Message := ⟨.read, .primary, ['k'], [], sampleNode 1, 1, false⟩

/-- Node `1` has asked for a key and noted these replies. -/
def asked (replies : List Str) : World :=
  initial.setNode (sampleNode 1) { MP2Node.new with
    operationTable := (∅ : Std.TreeMap Int32 Str).insert 1 sampleRead.toString
    readValueTable := (∅ : Std.TreeMap Int32 (List Str)).insert 1 replies }

def sampleEntry (value : Str) : Str := Entry.convertToString ⟨value, 0, .primary⟩

theorem wellFormed_sampleEntry {values : List Str} (h : ∀ v ∈ values, ':' ∉ v) :
    ∀ s ∈ values.map sampleEntry, WellFormedReply s := by
  intro s hs
  obtain ⟨v, hv, rfl⟩ := List.mem_map.mp hs
  exact Or.inr ⟨_, h v hv, rfl⟩

theorem ofString_sampleRead : Message.ofString .primary sampleRead.toString = some sampleRead := by
  decide +kernel

theorem legible_asked (h : ∀ s ∈ replies, WellFormedReply s) :
    Legible .primary (asked replies) (sampleNode 1) where
  operation := by
    intro t text htext
    simp only [asked, setNode, Function.update_self, Std.TreeMap.getElem?_insert] at htext
    split at htext
    case isTrue =>
      obtain rfl := Option.some.inj htext
      exact ⟨sampleRead, ofString_sampleRead⟩
    case isFalse => simp at htext
  noted := by
    intro t replies' hreplies'
    simp only [asked, setNode, Function.update_self, Std.TreeMap.getElem?_insert] at hreplies'
    split at hreplies'
    case isTrue =>
      obtain rfl := Option.some.inj hreplies'
      exact h
    case isFalse => simp at hreplies'

theorem awaits_asked (h : ∀ s ∈ replies, WellFormedReply s) :
    Awaits .primary (asked replies) (sampleNode 1) 1 replies where
  operation := by
    refine ⟨sampleRead.toString, sampleRead, ?_, ofString_sampleRead, rfl⟩
    simp only [asked, setNode, Function.update_self]
    exact Std.TreeMap.getElem?_insert_self
  noted := by
    simp only [asked, setNode, Function.update_self]
    exact Std.TreeMap.getElem?_insert_self
  wellFormed := h

/-! ## Soundness -/

/-- A success is sound for every list of replies but those in which entries with the empty value
come before the entries with one other value. -/
theorem read_sound_iff (h : w.checkReadOperations uninit self = some w')
    (ha : Awaits uninit w self t replies) :
    (∀ v, LogsRead w w' t v → 2 ≤ replies.countP (fun s => Decodes s v) ∧
      ∀ s ∈ replies, s ≠ [] → Decodes s v) ↔
    ¬ ∃ a b v, 0 < a ∧ 0 < b ∧ v ≠ [] ∧
      entryValues replies = List.replicate a [] ++ List.replicate b v := by
  have hlogs : ∀ v, LogsRead w w' t v ↔ v ≠ [] ∧ ∃ a b, 0 < b ∧ 1 < 0 + (a + b) ∧
      entryValues replies = List.replicate a [] ++ List.replicate b v :=
    fun v => (logsRead_iff h ha).trans accepts_iff
  constructor
  · intro hsound ⟨a, b, v, ha₀, hb, hv, heq⟩
    have hall := (hsound v ((hlogs v).mpr ⟨hv, a, b, hb, by omega, heq⟩)).2
    have hempty : [] ∈ entryValues replies := by
      rw [heq]
      exact List.mem_append_left _ (List.mem_replicate.mpr ⟨ha₀.ne', rfl⟩)
    obtain ⟨s, hs, hdecodes⟩ := mem_entryValues.mp hempty
    have hboth := hdecodes.symm.trans (hall s hs hdecodes.ne_nil)
    exact hv (Option.some.inj hboth).symm
  · intro hnone v hlogged
    obtain ⟨hv, a, b, hb, hlt, heq⟩ := (hlogs v).mp hlogged
    obtain rfl : a = 0 := by
      by_contra hpos
      exact hnone ⟨a, b, v, by omega, hb, hv, heq⟩
    rw [List.replicate_zero, List.nil_append] at heq
    refine ⟨?_, ?_⟩
    · rw [countP_decodes, heq, List.count_replicate_self]
      omega
    · intro s hs hne
      obtain ⟨e, he, rfl⟩ := (ha.wellFormed s hs).resolve_left hne
      have hmem := mem_entryValues.mpr ⟨_, hs, decodes_entry he e.timestamp e.replica⟩
      rw [heq] at hmem
      rw [← List.eq_of_mem_replicate hmem]
      exact decodes_entry he e.timestamp e.replica

/-- An entry with the empty value makes the one other entry a quorum. -/
theorem read_of_one_entry : ¬ ∀ (uninit : ReplicaType) (w w' : World) (self : Address) (t : Int32)
    (replies : List Str), w.checkReadOperations uninit self = some w' →
      Awaits uninit w self t replies → ∀ v, LogsRead w w' t v →
        2 ≤ replies.countP (fun s => Decodes s v) ∧ ∀ s ∈ replies, s ≠ [] → Decodes s v := by
  intro hall
  have hwell : ∀ s ∈ [[], ['v']].map sampleEntry, WellFormedReply s :=
    wellFormed_sampleEntry (by simp)
  obtain ⟨w', hw'⟩ := checkReadOperations_total (legible_asked hwell)
  have hlogged : LogsRead (asked _) w' 1 ['v'] :=
    (logsRead_iff hw' (awaits_asked hwell)).mpr
      (accepts_iff.mpr ⟨by simp, 1, 1, by decide, by decide, by decide +kernel⟩)
  have htwo := (hall _ _ _ _ _ _ hw' (awaits_asked hwell) _ hlogged).1
  exact absurd htwo (by decide +kernel)

theorem read_sound_iff_twoEntries : ∃ w',
    (asked ([['v'], ['v']].map sampleEntry)).checkReadOperations .primary (sampleNode 1) = some w' ∧
    ((∀ v, LogsRead (asked ([['v'], ['v']].map sampleEntry)) w' 1 v →
      2 ≤ ([['v'], ['v']].map sampleEntry).countP (fun s => Decodes s v) ∧
        ∀ s ∈ [['v'], ['v']].map sampleEntry, s ≠ [] → Decodes s v) ↔
      ¬ ∃ a b v, 0 < a ∧ 0 < b ∧ v ≠ [] ∧ entryValues ([['v'], ['v']].map sampleEntry) =
        List.replicate a [] ++ List.replicate b v) := by
  have hwell : ∀ s ∈ [['v'], ['v']].map sampleEntry, WellFormedReply s :=
    wellFormed_sampleEntry (by simp)
  obtain ⟨w', hw'⟩ := checkReadOperations_total (legible_asked hwell)
  exact ⟨w', hw', read_sound_iff hw' (awaits_asked hwell)⟩

/-! ## Availability -/

/-- Two entries with one value are enough when nothing else follows an entry with a value: the
other replies are missing or empty, or bring the empty value, and that in front. -/
theorem read_available_iff (hlegible : Legible uninit w self)
    (ha : Awaits uninit w self t replies) (hv : v ≠ [])
    (htwo : 2 ≤ replies.countP (fun s => Decodes s v)) :
    (∃ w', w.checkReadOperations uninit self = some w' ∧ LogsRead w w' t v) ↔
      ∃ a b, entryValues replies = List.replicate a [] ++ List.replicate b v := by
  obtain ⟨w', hw'⟩ := checkReadOperations_total hlegible
  have hlogs := (logsRead_iff (v := v) hw' ha).trans accepts_iff
  constructor
  · intro ⟨w₁, hw₁, hlogged⟩
    obtain rfl := Option.some.inj (hw'.symm.trans hw₁)
    obtain ⟨_, a, b, _, _, heq⟩ := hlogs.mp hlogged
    exact ⟨a, b, heq⟩
  · intro ⟨a, b, heq⟩
    rw [countP_decodes, heq, List.count_append, List.count_replicate_self,
      List.count_eq_zero_of_not_mem (fun h => hv (List.eq_of_mem_replicate h))] at htwo
    exact ⟨w', hw', hlogs.mpr ⟨hv, a, b, by omega, by omega, heq⟩⟩

/-- The third replica missed an update: the two others do not make a quorum. -/
theorem read_spoiled : ¬ ∀ (uninit : ReplicaType) (w : World) (self : Address) (t : Int32)
    (replies : List Str) (v : Str), Legible uninit w self → Awaits uninit w self t replies →
      v ≠ [] → replies.length ≤ 3 → 2 ≤ replies.countP (fun s => Decodes s v) →
        ∃ w', w.checkReadOperations uninit self = some w' ∧ LogsRead w w' t v := by
  intro hall
  have hwell : ∀ s ∈ [['u'], ['v'], ['v']].map sampleEntry, WellFormedReply s :=
    wellFormed_sampleEntry (by simp)
  obtain ⟨w', hw', hlogged⟩ := hall _ _ _ _ _ ['v'] (legible_asked hwell) (awaits_asked hwell)
    (by simp) (by simp) (by decide +kernel)
  obtain ⟨-, a, b, -, -, heq⟩ := accepts_iff.mp ((logsRead_iff hw' (awaits_asked hwell)).mp hlogged)
  have hmem : ['u'] ∈ List.replicate a [] ++ List.replicate b ['v'] := by
    rw [← heq]
    decide +kernel
  simp at hmem

theorem read_available_iff_oneMissing :
    (∃ w', (asked [sampleEntry ['v'], [], sampleEntry ['v']]).checkReadOperations .primary
        (sampleNode 1) = some w' ∧
      LogsRead (asked [sampleEntry ['v'], [], sampleEntry ['v']]) w' 1 ['v']) ↔
    ∃ a b, entryValues [sampleEntry ['v'], [], sampleEntry ['v']] =
      List.replicate a [] ++ List.replicate b ['v'] := by
  have hwell : ∀ s ∈ [sampleEntry ['v'], [], sampleEntry ['v']], WellFormedReply s := by
    have hentry : WellFormedReply (sampleEntry ['v']) := Or.inr ⟨_, by simp, rfl⟩
    have hnone : WellFormedReply [] := Or.inl rfl
    simpa using ⟨hentry, hnone, hentry⟩
  exact read_available_iff (legible_asked hwell) (awaits_asked hwell) (by simp) (by decide +kernel)

end World

end CloudComputing.KeyValueStore
