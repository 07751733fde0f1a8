import CloudComputing.KeyValueStore.Handling
import CloudComputing.KeyValueStore.StabilizationLoop

/-!
# What an action is made of

Every action is a path of small changes of the world.  A run keeps an invariant
when every `Change` does and, unless the ring is fixed, every `Reshape`.
-/

namespace CloudComputing.KeyValueStore

open Lib Relation

/-- The message a client request is sent as. -/
def Request.message (request : Request) (self : Address) (uninit : ReplicaType)
    (transID : Int32) : Message :=
  match request with
  | .create key value => ⟨.create, uninit, key, value, self, transID, false⟩
  | .read key => ⟨.read, uninit, key, [], self, transID, false⟩
  | .update key value => ⟨.update, uninit, key, value, self, transID, false⟩
  | .delete key => ⟨.delete, uninit, key, [], self, transID, false⟩

namespace World

variable {hash : Str → Nat} {ok : World → Action → Prop}

/-- What a client call leaves behind once it has found the replicas `r₀`, `r₁` and `r₂`. -/
def issued (self : Address) (message : Int32 → Message) (r₀ r₁ r₂ : Node) (w : World) : World :=
  let transID := w.nextTransID.gTransID
  let text := (message transID).toString
  { w.nextTransID.modifyNode self fun n =>
      { n with operationTable := n.operationTable.insert transID text } with
    net := w.net ++ [⟨self, r₀.nodeAddress, text⟩, ⟨self, r₁.nodeAddress, text⟩,
      ⟨self, r₂.nodeAddress, text⟩] }

/-- `log…` at the end of a turn of `check_update_operations`. -/
def judged (received : Message) (op : Operation) (transID : Int32) (results : List Bool)
    (value : Str) (w : World) : World :=
  w.log received.fromAddr true op (1 < results.count true) transID received.key value

/-- One change that leaves the ring and the other keys of the tables alone. -/
inductive Change (hash : Str → Nat) (ok : World → Action → Prop) : World → World → Prop
  | tick (w) : Change hash ok w { w with currtime := w.currtime + 1 }
  | receive (w) (p : Packet) (hp : p ∈ w.net) : Change hash ok w (w.receive p)
  | lose (w) (p : Packet) (hp : p ∈ w.net) (hok : ok w (.lose p)) : Change hash ok w (w.lose p)
  | reorder (w) (net : List Packet) (hnet : net.Perm w.net) : Change hash ok w { w with net := net }
  | issue (w) (self : Address) (uninit : ReplicaType) (request : Request) (r₀ r₁ r₂ : Node)
      (hok : ok w (.client self uninit request))
      (hfind : findNodes hash request.key (w.node self).ring = [r₀, r₁, r₂]) :
      Change hash ok w (w.issued self (request.message self uninit) r₀ r₁ r₂)
  | arrive {w w' : World} (self : Address) (uninit replica : ReplicaType) (text : Str)
      (queue : List Str) (arrived : Message) (hq : (w.node self).mp2q = text :: queue)
      (htext : Message.ofString uninit text = some arrived)
      (h : Handled uninit self arrived replica (w.pop self queue) w') : Change hash ok w w'
  | judgeUpdate (w) (self : Address) (uninit : ReplicaType) (transID : Int32)
      (results : List Bool) (text : Str) (received : Message) (op : Operation) (value : Str)
      (hresults : (w.node self).resultTable[transID]? = some results)
      (htable : (w.node self).operationTable[transID]? = some text)
      (htext : Message.ofString uninit text = some received)
      (hop : (received.type = .create ∧ op = .create ∧ value = received.value) ∨
        (received.type = .update ∧ op = .update ∧ value = received.value) ∨
        (received.type = .delete ∧ op = .delete ∧ value = [])) :
      Change hash ok w (w.judged received op transID results value)
  | judgeRead (w) (self : Address) (uninit : ReplicaType) (transID : Int32) (values : List Str)
      (text : Str) (received : Message) (v : ReadValues)
      (hvalues : (w.node self).readValueTable[transID]? = some values)
      (htable : (w.node self).operationTable[transID]? = some text)
      (htext : Message.ofString uninit text = some received) (htype : received.type = .read)
      (hv : values.foldlM readValue ⟨0, [], false⟩ = some v) :
      Change hash ok w
        (if 1 < v.counter ∧ v.value ≠ [] ∧ v.moreThan1Value = false then
          w.log received.fromAddr true .read true transID received.key v.value
        else w.log received.fromAddr true .read false transID received.key [])
  | clearResults (w) (self : Address) :
      Change hash ok w (w.modifyNode self fun n => { n with resultTable := ∅ })
  | clearReads (w) (self : Address) :
      Change hash ok w (w.modifyNode self fun n => { n with readValueTable := ∅ })
  | rewrite (w) (self : Address) (key value : Str) (replica : ReplicaType)
      (hvalue : (w.node self).ht.get? key = some value) :
      Change hash ok w (w.rewrite self key value replica)

/-- One change that a new ring brings about. -/
inductive Reshape : World → World → Prop
  | copy (w) (self toAddr : Address) (key value : Str) (type : MessageType)
      (replica : ReplicaType) (hheld : (w.node self).ht.get? key ≠ none)
      (hkey : Split.Clean Message.delimiter key) (hvalue : Split.Clean Message.delimiter value)
      (htype : type = .create ∨ type = .update) :
      Reshape w (w.sendMessage self toAddr key value type replica)
  | setRing (w) (self : Address) (ring : List Node) :
      Reshape w (w.modifyNode self fun n => { n with ring := ring })

/-- Either of the two. -/
inductive Alters (hash : Str → Nat) (ok : World → Action → Prop) (w w' : World) : Prop
  | change (h : Change hash ok w w')
  | reshape (h : Reshape w w')

/-! ## Client calls -/

theorem client_eq_dispatch (w : World) (self : Address) (uninit : ReplicaType)
    (request : Request) : w.client hash self uninit request =
      w.dispatch hash self request.key (request.message self uninit) := by
  cases request <;> rfl

theorem dispatch_some {w w' : World} {self : Address} {key : Str} {message : Int32 → Message}
    (h : w.dispatch hash self key message = some w') : ∃ r₀ r₁ r₂,
      findNodes hash key (w.node self).ring = [r₀, r₁, r₂] ∧
      w' = w.issued self message r₀ r₁ r₂ := by
  unfold dispatch at h
  simp only [node_modifyNode_self, node_nextTransID] at h
  rcases findNodes_cases hash key (w.node self).ring with hnil | ⟨hlen, i, hi, hthree⟩
  · rw [hnil] at h
    cases h
  · obtain ⟨r₀, r₁, r₂, heq, -⟩ := threeFrom_length hlen hi
    rw [hthree, heq] at h ⊢
    refine ⟨r₀, r₁, r₂, rfl, (Option.some.inj h).symm.trans ?_⟩
    simp [issued, enSend, gTransID]

theorem client_some {w w' : World} {self : Address} {uninit : ReplicaType} {request : Request}
    (h : w.step hash (.client self uninit request) = some w') : ∃ r₀ r₁ r₂,
      findNodes hash request.key (w.node self).ring = [r₀, r₁, r₂] ∧
      w' = w.issued self (request.message self uninit) r₀ r₁ r₂ :=
  dispatch_some ((client_eq_dispatch w self uninit request).symm.trans h)

/-! ## Handling the queue -/

theorem changes_popLoop {self : Address} {uninit : ReplicaType} {queue : List Str} {w : World}
    {replica : ReplicaType} {s : World × ReplicaType} (hq : (w.node self).mp2q = queue)
    (h : popLoop hash uninit self queue (w, replica) = some s) :
    ReflTransGen (Change hash ok) w s.1 := by
  induction queue generalizing w replica with
  | nil =>
      obtain rfl := Option.some.inj h
      exact .refl
  | cons text queue ih =>
      simp only [popLoop, Option.bind_eq_bind, Option.bind_eq_some_iff] at h
      obtain ⟨arrived, htext, ⟨w₁, replica₁⟩, hhandle, h⟩ := h
      have hh := handled_handle hhandle
      have hq₁ : (w₁.node self).mp2q = queue := hh.mp2q.trans (by simp)
      exact .head (.arrive self uninit replica text queue arrived hq htext hh) (ih hq₁ h)

theorem changes_checkUpdate {self : Address} {uninit : ReplicaType} {w w' : World}
    {result : Int32 × List Bool} (hmem : (w.node self).resultTable[result.1]? = some result.2)
    (h : w.checkUpdate uninit self result = some w') :
    ReflTransGen (Change hash ok) w w' ∧ w'.node = w.node := by
  unfold checkUpdate at h
  split at h
  case h_1 =>
    obtain rfl := Option.some.inj h
    exact ⟨.refl, rfl⟩
  case h_2 text htable =>
    simp only [Option.bind_eq_bind, Option.bind_eq_some_iff, Option.pure_def,
      Option.some.injEq] at h
    obtain ⟨received, htext, rfl⟩ := h
    have hjudge := @Change.judgeUpdate hash ok w self uninit result.1 result.2 text received
    cases htype : received.type with
    | create =>
        exact ⟨.single (hjudge .create received.value hmem htable htext
          (Or.inl ⟨htype, rfl, rfl⟩)), rfl⟩
    | update =>
        exact ⟨.single (hjudge .update received.value hmem htable htext
          (Or.inr (Or.inl ⟨htype, rfl, rfl⟩))), rfl⟩
    | delete =>
        exact ⟨.single (hjudge .delete [] hmem htable htext
          (Or.inr (Or.inr ⟨htype, rfl, rfl⟩))), rfl⟩
    | read | reply | readreply | other n hn => exact ⟨.refl, rfl⟩

theorem changes_checkRead {self : Address} {uninit : ReplicaType} {w w' : World}
    {result : Int32 × List Str} (hmem : (w.node self).readValueTable[result.1]? = some result.2)
    (h : w.checkRead uninit self result = some w') :
    ReflTransGen (Change hash ok) w w' ∧ w'.node = w.node := by
  unfold checkRead at h
  split at h
  case h_1 =>
    obtain rfl := Option.some.inj h
    exact ⟨.refl, rfl⟩
  case h_2 text htable =>
    simp only [Option.bind_eq_bind, Option.bind_eq_some_iff, Option.pure_def,
      Option.some.injEq] at h
    obtain ⟨received, htext, v, hv, rfl⟩ := h
    by_cases htype : received.type = .read
    · rw [if_pos htype]
      refine ⟨.single (.judgeRead w self uninit result.1 result.2 text received v hmem htable
        htext htype hv), ?_⟩
      split <;> rfl
    · rw [if_neg htype]
      exact ⟨.refl, rfl⟩

theorem changes_checkUpdateOperations {self : Address} {uninit : ReplicaType} {w w' : World}
    (h : w.checkUpdateOperations uninit self = some w') : ReflTransGen (Change hash ok) w w' := by
  unfold checkUpdateOperations at h
  simp only [Option.bind_eq_bind, Option.bind_eq_some_iff, Option.pure_def,
    Option.some.injEq] at h
  obtain ⟨w₁, hfold, rfl⟩ := h
  have hloop := foldlM_invariant (P := fun rest v =>
    ReflTransGen (Change hash ok) w v ∧ v.node = w.node ∧
      ∀ x ∈ rest, (w.node self).resultTable[x.1]? = some x.2)
    (fun x xs v v' hP hstep => by
      obtain ⟨hpath, hnode, hmem⟩ := hP
      have hx := hmem x List.mem_cons_self
      have hturn : ReflTransGen (Change hash ok) v v' ∧ v'.node = v.node :=
        changes_checkUpdate (by rw [hnode]; exact hx) hstep
      obtain ⟨hpath', hnode'⟩ := hturn
      exact ⟨hpath.trans hpath', hnode'.trans hnode,
        fun y hy => hmem y (List.mem_cons_of_mem _ hy)⟩)
    ⟨.refl, rfl, fun x hx => Std.TreeMap.mem_toList_iff_getElem?_eq_some.mp hx⟩ hfold
  exact hloop.1.tail (.clearResults w₁ self)

theorem changes_checkReadOperations {self : Address} {uninit : ReplicaType} {w w' : World}
    (h : w.checkReadOperations uninit self = some w') : ReflTransGen (Change hash ok) w w' := by
  unfold checkReadOperations at h
  simp only [Option.bind_eq_bind, Option.bind_eq_some_iff, Option.pure_def,
    Option.some.injEq] at h
  obtain ⟨w₁, hfold, rfl⟩ := h
  have hloop := foldlM_invariant (P := fun rest v =>
    ReflTransGen (Change hash ok) w v ∧ v.node = w.node ∧
      ∀ x ∈ rest, (w.node self).readValueTable[x.1]? = some x.2)
    (fun x xs v v' hP hstep => by
      obtain ⟨hpath, hnode, hmem⟩ := hP
      have hx := hmem x List.mem_cons_self
      have hturn : ReflTransGen (Change hash ok) v v' ∧ v'.node = v.node :=
        changes_checkRead (by rw [hnode]; exact hx) hstep
      obtain ⟨hpath', hnode'⟩ := hturn
      exact ⟨hpath.trans hpath', hnode'.trans hnode,
        fun y hy => hmem y (List.mem_cons_of_mem _ hy)⟩)
    ⟨.refl, rfl, fun x hx => Std.TreeMap.mem_toList_iff_getElem?_eq_some.mp hx⟩ hfold
  exact hloop.1.tail (.clearReads w₁ self)

theorem changes_checkMessages {self : Address} {uninit : ReplicaType} {w w' : World}
    (h : w.checkMessages hash uninit self = some w') : ReflTransGen (Change hash ok) w w' := by
  unfold checkMessages at h
  simp only [Option.bind_eq_bind, Option.bind_eq_some_iff] at h
  obtain ⟨⟨w₁, replica⟩, hpop, w₂, hupdate, hread⟩ := h
  have hpath₁ : ReflTransGen (Change hash ok) w w₁ := changes_popLoop rfl hpop
  have hpath₂ : ReflTransGen (Change hash ok) w₁ w₂ := changes_checkUpdateOperations hupdate
  have hpath₃ : ReflTransGen (Change hash ok) w₂ w' := changes_checkReadOperations hread
  exact (hpath₁.trans hpath₂).trans hpath₃

/-! ## A new ring -/

section Reshaping

variable {self : Address} {w w' : World} {key value : Str}

theorem alters_sendCopies {copies : List Copy} (hheld : (w.node self).ht.get? key ≠ none)
    (hkey : Split.Clean Message.delimiter key) (hvalue : Split.Clean Message.delimiter value)
    (htype : ∀ c ∈ copies, c.type = .create ∨ c.type = .update) :
    ReflTransGen (Alters hash ok) w (w.sendCopies self key value copies) := by
  induction copies generalizing w with
  | nil => exact .refl
  | cons c copies ih =>
      have hcopy := Reshape.copy w self c.toAddr key value c.type c.replica hheld hkey hvalue
        (htype c List.mem_cons_self)
      exact .head (.reshape hcopy) (ih hheld fun c' hc' => htype c' (List.mem_cons_of_mem _ hc'))

theorem alters_stabilized {newRing old : List Node} {n₀ n₁ n₂ : Node}
    (hentry : (w.node self).ht.get? key = some value)
    (hkey : Split.Clean Message.delimiter key) (hvalue : Split.Clean Message.delimiter value)
    (hown : value ≠ [] → self ∈ [n₀, n₁, n₂].map Node.nodeAddress)
    (h : Stabilized self newRing key value old n₀ n₁ n₂ w w') :
    ReflTransGen (Alters hash ok) w w' := by
  have hheld : (w.node self).ht.get? key ≠ none := by simp [hentry]
  have hrewritten : ∀ replica,
      ((w.rewrite self key value replica).node self).ht.get? key ≠ none := by
    intro replica
    rw [get?_rewrite hentry]
    split
    · simp
    · exact hheld
  cases h with
  | handOver hpos =>
      have hempty : (w.node self).ht.read key = [] := read_of_handOver hpos hentry hown
      rw [modifyNode_deleteKey (by rw [node_sendCopies]; exact hempty)]
      exact alters_sendCopies hheld hkey hvalue fun c hc => Or.inl (Copy.type_ofStranger hc)
  | asPrimary =>
      refine .head (.change (.rewrite w self key value .primary hentry)) ?_
      exact alters_sendCopies (hrewritten _) hkey hvalue fun c hc => Copy.type_ofPrimary hc
  | asSecondary =>
      refine .head (.change (.rewrite w self key value .secondary hentry)) ?_
      exact alters_sendCopies (hrewritten _) hkey hvalue fun c hc =>
        Or.inl (Copy.type_ofSecondary hc)
  | asTertiary =>
      refine .head (.change (.rewrite w self key value .tertiary hentry)) ?_
      exact alters_sendCopies (hrewritten _) hkey hvalue fun c hc =>
        Or.inl (Copy.type_ofTertiary hc)

def CleanTable (w : World) (self : Address) : Prop :=
  ∀ key value, (w.node self).ht.get? key = some value →
    Split.Clean Message.delimiter key ∧ Split.Clean Message.delimiter value

theorem alters_stabilizationProtocol {newRing : List Node} (hclean : w.CleanTable self)
    (h : w.stabilizationProtocol hash self newRing = some w') :
    ReflTransGen (Alters hash ok) w w' := by
  have hloop := stabilizationProtocol_invariant
    (P := fun rest v => ReflTransGen (Alters hash ok) w v ∧ ∀ x ∈ rest,
      Split.Clean Message.delimiter x.1 ∧ Split.Clean Message.delimiter x.2)
    (fun key value rest v v' n₀ n₁ n₂ hP _ hentry _ _ hown hst => by
      have hkv := hP.2 (key, value) List.mem_cons_self
      exact ⟨hP.1.trans (alters_stabilized hentry hkv.1 hkv.2 hown hst),
        fun x hx => hP.2 x (List.mem_cons_of_mem _ hx)⟩)
    ⟨.refl, fun x hx => hclean x.1 x.2 (HashTable.mem_toList.mp hx)⟩ h
  exact hloop.1

theorem alters_updateRing {memberList : List MemberListEntry} (hclean : w.CleanTable self)
    (h : w.updateRing hash self memberList = some w') : ReflTransGen (Alters hash ok) w w' := by
  rcases updateRing_some h with ⟨-, rfl⟩ | ⟨-, -, w₁, hst, rfl⟩ | ⟨-, -, rfl⟩
  · exact .single (.reshape (.setRing w self _))
  · exact (alters_stabilizationProtocol hclean hst).tail (.reshape (.setRing w₁ self _))
  · exact .single (.reshape (.setRing w self (sortNodes (w.node self).ring)))

/-- Every action is a path of changes. -/
theorem alters_step {a : Action} (hok : ok w a) (hclean : ∀ self, w.CleanTable self)
    (h : w.step hash a = some w') : ReflTransGen (Alters hash ok) w w' := by
  cases a with
  | client self uninit request =>
      obtain ⟨r₀, r₁, r₂, hfind, rfl⟩ := client_some h
      exact .single (.change (.issue w self uninit request r₀ r₁ r₂ hok hfind))
  | updateRing self memberList => exact alters_updateRing (hclean self) h
  | checkMessages self uninit =>
      exact (changes_checkMessages h).lift id fun _ _ hc => .change hc
  | receive p =>
      obtain ⟨hp, rfl⟩ := step_receive h
      exact .single (.change (.receive w p hp))
  | lose p =>
      obtain ⟨hp, rfl⟩ := step_lose h
      exact .single (.change (.lose w p hp hok))
  | tick =>
      obtain rfl := Option.some.inj h
      exact .single (.change (.tick w))

theorem alters_of_step {a : Action} (hclean : ∀ self, w.CleanTable self)
    (h : w.step hash a = some w') : ReflTransGen (Alters hash Anything) w w' :=
  alters_step trivial hclean h

end Reshaping

end World

end CloudComputing.KeyValueStore
