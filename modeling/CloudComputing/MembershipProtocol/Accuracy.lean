import CloudComputing.MembershipProtocol.RunInvariant

/-!
# Without loss no live node is removed

As long as `ENsend` refuses nothing, `JoinInv` says that a node outside the
group is unknown to the others until its answer is on the way, and `Accurate`
bounds the age of every entry that one live node holds of another: either a
higher heartbeat is on the way, or the other node knows the holder and pings
soon, or it is about to hear of the holder, or the holder itself pings soon.
-/

namespace CloudComputing.MembershipProtocol

namespace Cluster

variable {env : Environment} {n t i j : Nat} {c c' : Cluster} {inbox : Nat → List Msg}

/-- A message about node `j` is on its way to node `i`. -/
def Told (c : Cluster) (i j : Nat) : Prop :=
  ∃ x, c.InFlight (nodeAddr i) x ∧ x.addr = nodeAddr j

/-! ## Nodes outside the group -/

def Answered (c : Cluster) (j : Nat) : Prop :=
  ∃ x, c.InFlight (nodeAddr j) x ∧ x.msgType = .joinRep

/-- What holds of a live node outside the group. -/
structure Outside (n : Nat) (c : Cluster) (j : Nat) : Prop where
  alone : ∀ e ∈ (c.mp1 j).memberList, e.address = nodeAddr j
  heartbeat : (c.mp1 j).heartbeat = 0
  addressed : ∀ x, c.InFlight (nodeAddr j) x → c.Answered j
  known : ∀ i < n, i ≠ j → c.Has i j → c.Answered j
  request : ∀ a x, c.InFlight a x → x.addr = nodeAddr j → x.msgType = .joinReq

/-- Every live node is in the group or outside as `Outside` says. -/
def JoinInv (n t : Nat) (c : Cluster) : Prop :=
  ∀ j < n, 0 < j → running t j (c.mp1 j) = true → (c.mp1 j).inGroup = false → Outside n c j

theorem joinInv_init (n : Nat) : JoinInv n 0 (init n) := by
  intro j _ _ hrun
  simp [running] at hrun

section Join

variable (hn : n < 256) (inv : RunInv n t c) (tick : Tick env n t c c' inbox)

include hn in
theorem not_known_of_unstarted {a : Address} {h : Int} (hj : j < n) (hs : t ≤ startTime j)
    (hk : Known n t c a h) : a ≠ nodeAddr j := by
  obtain ⟨k, hk, hks, rfl, -⟩ := hk
  rw [Ne, nodeAddr_inj hn hk hj]
  rintro rfl
  omega

include inv in
theorem sent_of_start (hi : i < n) (hd : c.done t inbox i = (c.mp1 i).call.nodeStart t)
    {a : Address} {x : Msg} (hs : ⟨a, x⟩ ∈ (c.done t inbox i).sent) :
    a = nodeAddr 0 ∧ x = ⟨.joinReq, nodeAddr i, 0⟩ := by
  rw [hd, (nodeStart_spec _ _).2.1, inv.addr i hi] at hs
  split at hs
  · cases hs
  · exact Send.mk.inj (List.mem_singleton.mp hs)

include hn inv tick

theorem outside_of_start (hj : j < n) (hj0 : 0 < j) (hst : t = startTime j)
    (hdone : c.done t inbox j = (c.mp1 j).call.nodeStart t) : Outside n c' j := by
  have hnew : ∀ {a h}, Known n t c a h → a ≠ nodeAddr j :=
    fun hk => not_known_of_unstarted hn hj hst.le hk
  have hself : (c'.mp1 j).memberList = [⟨(nodeAddr j).id, (nodeAddr j).port, 0, (t : Int)⟩] := by
    rw [tick.memberList hj, hdone, (nodeStart_spec _ _).1, inv.addr j hj]
  have hnone : ∀ x, ¬c'.InFlight (nodeAddr j) x := by
    intro x hx
    rcases tick.inFlight _ _ hx with ⟨hx, -⟩ | ⟨i, hi, hs⟩
    · obtain ⟨h, hk⟩ := inv.dst _ _ hx
      exact hnew hk rfl
    · rcases done_cases inv inbox hi with ⟨-, hd⟩ | ⟨hrun, hturn⟩ | ⟨-, -, hd⟩
      · have h0 := (sent_of_start inv hi hd hs).1
        rw [nodeAddr_inj hn hj (by omega)] at h0
        omega
      · obtain ⟨⟨h, hk⟩, -⟩ := turn_sent inv tick hi hrun hturn hs
        exact hnew hk rfl
      · rw [hd] at hs
        cases hs
  constructor
  case alone =>
    intro e he
    rw [hself, List.mem_singleton] at he
    rw [he]
    rfl
  case heartbeat => rw [tick.heartbeat hj, hdone, (nodeStart_spec _ _).1]
  case addressed => exact fun x hx => absurd hx (hnone x)
  case known =>
    rintro i hi hij ⟨e, he, ha⟩
    rw [tick.memberList hi] at he
    rcases done_cases inv inbox hi with ⟨-, hd⟩ | ⟨hrun, hturn⟩ | ⟨-, -, hd⟩
    · rw [hd, (nodeStart_spec _ _).1, inv.addr i hi, List.mem_singleton] at he
      rw [he] at ha
      exact absurd ((nodeAddr_inj hn hi hj).mp ha) hij
    · rcases hturn.entries e he with he | ⟨-, x, hx, hxa, -⟩
      · exact absurd ha (hnew (inv.entry i hi e he).1)
      · exact absurd (hxa.trans ha) (hnew (inv.msg _ _ ((tick.queue i hi hrun x).mp hx)))
    · rw [hd] at he
      exact absurd ha (hnew (inv.entry i hi e he).1)
  case request =>
    intro a x hx ha
    rcases tick.inFlight _ _ hx with ⟨hx, -⟩ | ⟨i, hi, hs⟩
    · exact absurd ha (hnew (inv.msg _ _ hx))
    · rcases done_cases inv inbox hi with ⟨-, hd⟩ | ⟨hrun, hturn⟩ | ⟨-, -, hd⟩
      · rw [(sent_of_start inv hi hd hs).2]
      · obtain ⟨-, h, hk⟩ := turn_sent inv tick hi hrun hturn hs
        exact absurd ha (hnew hk)
      · rw [hd] at hs
        cases hs

section StillOutside

variable (hj : j < n) (hrun : running t j (c.mp1 j) = true)
  (hturn : Turn t (inbox j) (c.mp1 j) (c.done t inbox j))
  (hout : (c.done t inbox j).member.inGroup = false) (o : Outside n c j)

include hj hrun hturn hout

omit hn inv in
theorem not_answered : ¬c.Answered j := by
  rintro ⟨x, hx, hrep⟩
  have hin := hturn.inGroup.mpr (Or.inr ⟨x, (tick.queue j hj hrun x).mpr hx, hrep⟩)
  rw [hout] at hin
  cases hin

include o

omit hn inv in
theorem Outside.inbox_empty (x : Msg) : x ∉ inbox j := fun hx =>
  not_answered tick hj hrun hturn hout (o.addressed x ((tick.queue j hj hrun x).mp hx))

omit hn inv in
theorem Outside.unknown (hi : i < n) (hij : i ≠ j) {e : MemberListEntry}
    (he : e ∈ (c.mp1 i).memberList) : e.address ≠ nodeAddr j := fun ha =>
  not_answered tick hj hrun hturn hout (o.known i hi hij ⟨e, he, ha⟩)

section

variable (hi : i < n) (hruni : running t i (c.mp1 i) = true)
  (hturni : Turn t (inbox i) (c.mp1 i) (c.done t inbox i))

include hi hruni hturni

omit hn inv hj hrun hturn hout in
theorem Outside.answered_of_heard (hok : c'.refused = c.refused) {y : Msg} (hy : y ∈ inbox i)
    (ha : y.addr = nodeAddr j) : c'.Answered j := by
  have hreq := o.request _ _ ((tick.queue i hi hruni y).mp hy) ha
  exact ⟨_, tick.delivered hok i hi _ _ (ha ▸ hturni.replies y hy hreq), rfl⟩

omit hn inv in
theorem Outside.answered_of_sent (hok : c'.refused = c.refused) {x : Msg}
    (hs : ⟨nodeAddr j, x⟩ ∈ (c.done t inbox i).sent) : c'.Answered j := by
  have hheard : ∀ y ∈ inbox i, y.addr = nodeAddr j → c'.Answered j :=
    fun y hy ha => o.answered_of_heard tick hi hruni hturni hok hy ha
  rcases hturni.sends _ hs with ⟨y, hy, -, hsend⟩ | ⟨⟨e, he, ha⟩ | ⟨y, hy, ha⟩, hcase⟩
  · exact hheard y hy (Send.mk.inj hsend).1.symm
  · by_cases hij : i = j
    · subst hij
      rcases hcase with ⟨y, hy, -⟩ | ⟨hin, -⟩
      · exact absurd hy (o.inbox_empty tick hj hrun hturn hout y)
      · rw [hout] at hin
        cases hin
    · exact absurd ha (o.unknown tick hj hrun hturn hout hi hij he)
  · exact hheard y hy ha

/-- Nobody passes on anything about `j`: its request is the only heartbeat of it anyone heard. -/
theorem Outside.not_about {a : Address} {x : Msg} (hs : ⟨a, x⟩ ∈ (c.done t inbox i).sent) :
    x.addr ≠ nodeAddr j := by
  intro ha
  have hself : x.addr = (c.mp1 i).addr → i = j := by
    intro h
    rw [ha, inv.addr i hi, nodeAddr_inj hn hj hi] at h
    exact h.symm
  rcases hturni.sends _ hs with ⟨y, hy, -, hsend⟩ | ⟨-, hcase⟩
  · obtain rfl := hself (congrArg Msg.addr (Send.mk.inj hsend).2)
    exact o.inbox_empty tick hj hrun hturn hout y hy
  · rcases hcase with ⟨y, hy, hmsg, hlow⟩ | ⟨hin, -, hmsg⟩
    · have hya : y.addr = nodeAddr j := (congrArg Msg.addr hmsg).symm.trans ha
      have hij : i ≠ j := by
        rintro rfl
        exact o.inbox_empty tick hj hrun hturn hout y hy
      have hle : y.heartbeat ≤ 0 := by
        obtain ⟨k, hk, -, hka, -, hle⟩ := inv.msg _ _ ((tick.queue i hi hruni y).mp hy)
        rw [hya, nodeAddr_inj hn hj hk] at hka
        rwa [← hka, o.heartbeat] at hle
      rcases hlow with ⟨e, he, hea, -⟩ | ⟨z, hz, -, hlt⟩
      · exact o.unknown tick hj hrun hturn hout hi hij he (hea.trans hya)
      · obtain ⟨-, -, -, -, h0, -⟩ := inv.msg _ _ ((tick.queue i hi hruni z).mp hz)
        omega
    · obtain rfl := hself (congrArg Msg.addr hmsg)
      rw [hout] at hin
      cases hin

end

/-- A turn after which node `j` is still outside: it fetched nothing, and whoever heard of it
answered. -/
theorem outside_of_turn (hok : c'.refused = c.refused) (hj0 : 0 < j) : Outside n c' j := by
  have hnone : ∀ x, x ∉ inbox j := o.inbox_empty tick hj hrun hturn hout
  constructor
  case alone =>
    intro e he
    rw [tick.memberList hj] at he
    rcases hturn.entries e he with he | ⟨-, x, hx, -⟩
    · exact o.alone e he
    · exact absurd hx (hnone x)
  case heartbeat =>
    rw [tick.heartbeat hj, hturn.heartbeat, hout]
    simpa using o.heartbeat
  case addressed =>
    intro x hx
    rcases tick.inFlight _ _ hx with ⟨-, hne⟩ | ⟨i, hi, hs⟩
    · exact absurd rfl (hne j hj hrun)
    · rcases done_cases inv inbox hi with ⟨-, hd⟩ | ⟨hruni, hturni⟩ | ⟨-, -, hd⟩
      · have h0 := (sent_of_start inv hi hd hs).1
        rw [nodeAddr_inj hn hj (by omega)] at h0
        omega
      · exact o.answered_of_sent tick hj hrun hturn hout hi hruni hturni hok hs
      · rw [hd] at hs
        cases hs
  case known =>
    rintro i hi hij ⟨e, he, ha⟩
    rw [tick.memberList hi] at he
    have hunknown : e ∉ (c.mp1 i).memberList :=
      fun hmem => o.unknown tick hj hrun hturn hout hi hij hmem ha
    rcases done_cases inv inbox hi with ⟨-, hd⟩ | ⟨hruni, hturni⟩ | ⟨-, -, hd⟩
    · rw [hd, (nodeStart_spec _ _).1, inv.addr i hi, List.mem_singleton] at he
      rw [he] at ha
      exact absurd ((nodeAddr_inj hn hi hj).mp ha) hij
    · rcases hturni.entries e he with he | ⟨-, y, hy, hya, -⟩
      · exact absurd he hunknown
      · exact o.answered_of_heard tick hi hruni hturni hok hy (hya.trans ha)
    · rw [hd] at he
      exact absurd he hunknown
  case request =>
    intro a x hx ha
    rcases tick.inFlight _ _ hx with ⟨hx, -⟩ | ⟨i, hi, hs⟩
    · exact o.request a x hx ha
    · rcases done_cases inv inbox hi with ⟨-, hd⟩ | ⟨hruni, hturni⟩ | ⟨-, -, hd⟩
      · rw [(sent_of_start inv hi hd hs).2]
      · exact absurd ha (o.not_about hn inv tick hj hrun hturn hout hi hruni hturni hs)
      · rw [hd] at hs
        cases hs

end StillOutside

theorem joinInv_tick (hok : c'.refused = c.refused) (h : JoinInv n t c) :
    JoinInv n (t + 1) c' := by
  intro j hj hj0 hrun hout
  rw [tick.inGroup hj] at hout
  rcases live_cases inv tick hj hrun with ⟨hst, hdone⟩ | ⟨hrun, hturn⟩
  · exact outside_of_start hn inv tick hj hj0 hst hdone
  · refine outside_of_turn hn inv tick hj hrun hturn hout (h j hj hj0 hrun ?_) hok hj0
    cases hin : (c.mp1 j).inGroup with
    | false => rfl
    | true =>
        rw [hturn.inGroup.mpr (Or.inl hin)] at hout
        cases hout

end Join

theorem inGroup_of_fetched (inv : RunInv n t c) (tick : Tick env n t c c' inbox)
    (h : JoinInv n t c) (hi : i < n) (hrun : running t i (c.mp1 i) = true)
    (hturn : Turn t (inbox i) (c.mp1 i) (c.done t inbox i)) {x : Msg} (hx : x ∈ inbox i) :
    (c.done t inbox i).member.inGroup = true := by
  have hstarted := (running_iff.mp hrun).1
  rw [hturn.inGroup]
  cases hin : (c.mp1 i).inGroup with
  | true => exact Or.inl rfl
  | false =>
      by_cases hi0 : i = 0
      · subst hi0
        rw [inv.introducer hi (by omega)] at hin
        cases hin
      · obtain ⟨y, hy, hrep⟩ := (h i hi (by omega) hrun hin).addressed x
          ((tick.queue i hi hrun x).mp hx)
        exact Or.inr ⟨y, (tick.queue i hi hrun y).mpr hy, hrep⟩

/-! ## The age of an entry -/

/-- Why the entry `e` for `j` that `i` holds before tick `t` will not time out. -/
inductive Young (t : Nat) (c : Cluster) (i j : Nat) (e : MemberListEntry) : Prop where
  /-- a higher heartbeat is on its way -/
  | higher (x : Msg) (sent : c.InFlight (nodeAddr i) x) (about : x.addr = nodeAddr j)
      (lt : e.heartbeat < x.heartbeat)
  /-- `j` knows `i` and pings soon -/
  | known (has : c.Has j i) (inGroup : (c.mp1 j).inGroup = true)
      (age : t + (c.mp1 j).pingCounter ≤ e.timestamp + 20)
  /-- `j` is about to hear of `i` -/
  | told (told : c.Told j i) (age : t ≤ e.timestamp + 15)
  /-- `i` itself pings soon -/
  | pings (inGroup : (c.mp1 i).inGroup = true)
      (age : t + (c.mp1 i).pingCounter ≤ e.timestamp + 14)

/-- Every entry one live node holds of another is young. -/
def Accurate (n t : Nat) (c : Cluster) : Prop :=
  ∀ i < n, ∀ j < n, i ≠ j → running t i (c.mp1 i) = true → running t j (c.mp1 j) = true →
    ∀ e ∈ (c.mp1 i).memberList, e.address = nodeAddr j → Young t c i j e

theorem accurate_init (n : Nat) : Accurate n 0 (init n) := by
  intro i _ j _ _ hrun
  simp [running] at hrun

section Age

variable {e : MemberListEntry} (inv : RunInv n t c) (tick : Tick env n t c c' inbox)
  (hi : i < n) (hj : j < n) (hruni : running t i (c.mp1 i) = true)
  (hrunj : running t j (c.mp1 j) = true)
  (hturni : Turn t (inbox i) (c.mp1 i) (c.done t inbox i))

include inv hi hj hruni hrunj

/-- A young entry that times out is overtaken by a heartbeat in the same tick. -/
theorem Young.not_timedOut (h : Young t c i j e) (ht : timedOut t e = true) :
    ∃ x, c.InFlight (nodeAddr i) x ∧ x.addr = nodeAddr j ∧ e.heartbeat < x.heartbeat := by
  have hold : 20 < (t : Int) - e.timestamp := by simpa [timedOut, tRemove] using ht
  have hpi := inv.pingCounter i hi (running_iff.mp hruni).1
  have hpj := inv.pingCounter j hj (running_iff.mp hrunj).1
  cases h with
  | higher x sent about lt => exact ⟨x, sent, about, lt⟩
  | known has inGroup age => omega
  | told told age => omega
  | pings inGroup age => omega

include tick hturni

theorem Young.kept (he : e ∈ (c.mp1 i).memberList) (ha : e.address = nodeAddr j)
    (h : Young t c i j e) :
    ∃ e' ∈ (c.done t inbox i).member.memberList, e'.address = nodeAddr j := by
  rcases hturni.kept e he with ⟨ht, -⟩ | ⟨e', he', ha', -⟩
  · obtain ⟨x, hx, hxa, hlt⟩ := h.not_timedOut inv hi hj hruni hrunj ht
    rcases hturni.heard x ((tick.queue i hi hruni x).mpr hx) with
      ⟨e₁, he₁, ha₁, hle⟩ | ⟨e', he', ha', -⟩
    · have hok := inv.ok i hi (running_iff.mp hruni).1
      obtain rfl := hok.eq_of_address he he₁ (ha.trans (hxa.symm.trans ha₁.symm))
      omega
    · exact ⟨e', he', ha'.trans hxa⟩
  · exact ⟨e', he', ha'.trans ha⟩

end Age

section AccurateTick

variable (hn : n < 256) (inv : RunInv n t c) (tick : Tick env n t c c' inbox)
  (hok : c'.refused = c.refused) (join : JoinInv n t c) (acc : Accurate n t c)

include inv tick acc in
theorem has_of_has (hi : i < n) (hj : j < n) (hij : i ≠ j)
    (hruni : running t i (c.mp1 i) = true) (hrunj : running t j (c.mp1 j) = true)
    (hturni : Turn t (inbox i) (c.mp1 i) (c.done t inbox i)) (h : c.Has i j) :
    c'.Has i j := by
  obtain ⟨e, he, ha⟩ := h
  rw [Has, tick.memberList hi]
  exact (acc i hi j hj hij hruni hrunj e he ha).kept inv tick hi hj hruni hrunj hturni he ha

include inv tick acc in
theorem has_of_told (hi : i < n) (hj : j < n) (hij : i ≠ j)
    (hruni : running t i (c.mp1 i) = true) (hrunj : running t j (c.mp1 j) = true)
    (hturni : Turn t (inbox i) (c.mp1 i) (c.done t inbox i)) (h : c.Told i j) :
    c'.Has i j := by
  obtain ⟨x, hx, ha⟩ := h
  rcases hturni.heard x ((tick.queue i hi hruni x).mpr hx) with ⟨e, he, hea, -⟩ | ⟨e, he, hea, -⟩
  · exact has_of_has inv tick acc hi hj hij hruni hrunj hturni ⟨e, he, hea.trans ha⟩
  · rw [Has, tick.memberList hi]
    exact ⟨e, he, hea.trans ha⟩

include inv tick hok in
theorem higher_of_ping (hi : i < n) (hj : j < n) (hn : n < 256)
    (hturnj : Turn t (inbox j) (c.mp1 j) (c.done t inbox j))
    (hin : (c.done t inbox j).member.inGroup = true) (hp : (c.mp1 j).pingCounter = 0)
    (hto : c.Has j i ∨ ∃ x ∈ inbox j, x.addr = nodeAddr i) {e : MemberListEntry}
    (he : e ∈ (c.mp1 i).memberList) (ha : e.address = nodeAddr j) :
    Young (t + 1) c' i j e := by
  have hsent := hturnj.pinged hin hp (nodeAddr i) hto
  refine .higher _ (tick.delivered hok j hj _ _ hsent) (inv.addr j hj) ?_
  obtain ⟨k, hk, -, hka, -, hle⟩ := (inv.entry i hi e he).1
  rw [ha, nodeAddr_inj hn hj hk] at hka
  subst hka
  simp only
  omega

include hn inv tick hok join acc

theorem accurate_tick : Accurate n (t + 1) c' := by
  intro i hi j hj hij hruni hrunj e he ha
  rw [tick.memberList hi] at he
  rcases live_cases inv tick hi hruni with ⟨-, hd⟩ | ⟨hruni, hturni⟩
  · -- a node that just started knows only itself
    rw [hd, (nodeStart_spec _ _).1, inv.addr i hi, List.mem_singleton] at he
    rw [he] at ha
    exact absurd ((nodeAddr_inj hn hi hj).mp ha) hij
  have hpi := inv.pingCounter i hi (running_iff.mp hruni).1
  have hpi' := hturni.pingCounter
  rcases hturni.entries e he with hold | ⟨hts, x, hx, hxa, -⟩
  case inr =>
    have hin := inGroup_of_fetched inv tick join hi hruni hturni hx
    refine .pings (tick.inGroup hi ▸ hin) ?_
    rw [tick.pingCounter hi, hpi', hts]
    simp only [hin, if_true, tFail] at hpi ⊢
    split <;> (push_cast; omega)
  rcases live_cases inv tick hj hrunj with ⟨hst, -⟩ | ⟨hrunj, hturnj⟩
  · -- nobody knows a node that just started
    exact absurd ha (not_known_of_unstarted hn hj hst.le (inv.entry i hi e hold).1)
  have hpj := inv.pingCounter j hj (running_iff.mp hrunj).1
  have hpj' := hturnj.pingCounter
  simp only [tFail] at hpi hpi' hpj hpj'
  cases acc i hi j hj hij hruni hrunj e hold ha with
  | higher x sent about lt =>
      have hx := (tick.queue i hi hruni x).mpr sent
      have hnodup := inv.ok i hi (running_iff.mp hruni).1
      rcases hturni.heard x hx with ⟨e₁, he₁, ha₁, hle⟩ | ⟨e₁, he₁, ha₁, hle⟩
      · obtain rfl := hnodup.eq_of_address hold he₁ (ha.trans (about.symm.trans ha₁.symm))
        omega
      · obtain rfl := hturni.ok.eq_of_address he he₁ (ha.trans (about.symm.trans ha₁.symm))
        omega
  | known has inGroup age =>
      have hin : (c.done t inbox j).member.inGroup = true := hturnj.inGroup.mpr (Or.inl inGroup)
      by_cases hp : (c.mp1 j).pingCounter = 0
      · exact higher_of_ping inv tick hok hi hj hn hturnj hin hp (Or.inl has) hold ha
      · refine .known (has_of_has inv tick acc hj hi hij.symm hrunj hruni hturnj has)
          (tick.inGroup hj ▸ hin) ?_
        rw [tick.pingCounter hj, hpj', if_pos hin, if_neg hp]
        push_cast
        omega
  | told told age =>
      have hhas := has_of_told inv tick acc hj hi hij.symm hrunj hruni hturnj told
      obtain ⟨x, hx, hxa⟩ := told
      have hx' := (tick.queue j hj hrunj x).mpr hx
      have hin := inGroup_of_fetched inv tick join hj hrunj hturnj hx'
      by_cases hp : (c.mp1 j).pingCounter = 0
      · exact higher_of_ping inv tick hok hi hj hn hturnj hin hp (Or.inr ⟨x, hx', hxa⟩) hold ha
      · refine .known hhas (tick.inGroup hj ▸ hin) ?_
        rw [tick.pingCounter hj, hpj', if_pos hin, if_neg hp]
        push_cast
        omega
  | pings inGroup age =>
      have hin : (c.done t inbox i).member.inGroup = true := hturni.inGroup.mpr (Or.inl inGroup)
      by_cases hp : (c.mp1 i).pingCounter = 0
      · have hsent := hturni.pinged hin hp (nodeAddr j) (Or.inl ⟨e, hold, ha⟩)
        refine .told ⟨_, tick.delivered hok i hi _ _ hsent, inv.addr i hi⟩ ?_
        push_cast
        omega
      · refine .pings (tick.inGroup hi ▸ hin) ?_
        rw [tick.pingCounter hi, hpi', if_pos hin, if_neg hp]
        push_cast
        omega

end AccurateTick

/-! ## Runs without loss -/

theorem refused_mono (hn : n < 256) {s : Nat} (hst : s ≤ t) :
    (run env n s).refused ≤ (run env n t).refused := by
  induction t, hst using Nat.le_induction with
  | base => exact le_rfl
  | succ t _ ih =>
      obtain ⟨inbox, tick⟩ := exists_tick hn env t
      exact ih.trans tick.refused

theorem lossless_run (hn : n < 256) (hok : (run env n t).refused = 0) :
    JoinInv n t (run env n t) ∧ Accurate n t (run env n t) := by
  induction t with
  | zero => exact ⟨joinInv_init n, accurate_init n⟩
  | succ t ih =>
      have hle : (run env n t).refused ≤ (run env n (t + 1)).refused :=
        refused_mono hn (Nat.le_succ t)
      obtain ⟨join, acc⟩ := ih (by omega)
      obtain ⟨inbox, tick⟩ := exists_tick hn env t
      have inv := runInv_run hn env t
      have hsame : (run env n (t + 1)).refused = (run env n t).refused := by omega
      exact ⟨joinInv_tick hn inv tick hsame join, accurate_tick hn inv tick hsame join acc⟩

/-- What a turn removes is a node that failed before. -/
theorem removed_failed (inv : RunInv n t c) (tick : Tick env n t c c' inbox)
    (acc : Accurate n t c) (hi : i < n) {a b : Address} {now : Int}
    (hline : .nodeRemove a b now ∈ (c.done t inbox i).log) :
    a = nodeAddr i ∧ now = t ∧
      ∃ j < n, b = nodeAddr j ∧ startTime j < t ∧ (c.mp1 j).bFailed = true := by
  rcases done_cases inv inbox hi with ⟨-, hd⟩ | ⟨hruni, hturn⟩ | ⟨-, -, hd⟩
  · rw [hd, (nodeStart_spec _ _).2.2] at hline
    cases hline
  · rcases hturn.log _ hline with ⟨_, h⟩ | ⟨e, he, hne, ht, hhigh, hline⟩
    · cases h
    · obtain ⟨rfl, rfl, rfl⟩ := LogLine.nodeRemove.inj hline
      refine ⟨inv.addr i hi, rfl, ?_⟩
      obtain ⟨j, hj, hjs, ha, -⟩ := (inv.entry i hi e he).1
      refine ⟨j, hj, ha, hjs, ?_⟩
      have hij : i ≠ j := by
        rintro rfl
        exact hne (ha.trans (inv.addr i hi).symm)
      by_contra hlive
      have hrunj := running_iff.mpr ⟨hjs, Bool.not_eq_true _ ▸ hlive⟩
      obtain ⟨x, hx, hxa, hlt⟩ := (acc i hi j hj hij hruni hrunj e he ha).not_timedOut inv hi hj
        hruni hrunj ht
      have := hhigh x ((tick.queue i hi hruni x).mpr hx) (hxa.trans ha.symm)
      omega
  · rw [hd] at hline
    cases hline

theorem exists_of_mem_log (hn : n < 256) {line : LogLine} (hline : line ∈ (run env n t).log) :
    ∃ s < t, ∃ inbox, Tick env n s (run env n s) (run env n (s + 1)) inbox ∧
      ∃ i < n, line ∈ ((run env n s).done s inbox i).log := by
  induction t with
  | zero =>
      rw [run, init_log] at hline
      cases hline
  | succ t ih =>
      obtain ⟨inbox, tick⟩ := exists_tick hn env t
      rcases (tick.log line).mp hline with hline | hline
      · obtain ⟨s, hs, h⟩ := ih hline
        exact ⟨s, by omega, h⟩
      · exact ⟨t, by omega, inbox, tick, hline⟩

/-- Up to a tick before which no send was refused, every removal in the log is of a node that had
failed before it, and a live node still has every live node it knew. -/
theorem live_never_removed (env : Environment) (hn : n < 256)
    (hok : (run env n t).refused = 0) :
    (∀ a b (now : Int), .nodeRemove a b now ∈ (run env n (t + 1)).log →
      ∃ i < n, ∃ j < n, ∃ s ≤ t, a = nodeAddr i ∧ b = nodeAddr j ∧ now = s ∧
        startTime j < s ∧ ((run env n s).mp1 j).bFailed = true) ∧
    (∀ i < n, ∀ j < n, running t i ((run env n t).mp1 i) = true →
      running t j ((run env n t).mp1 j) = true →
      (run env n t).Has i j → (run env n (t + 1)).Has i j) := by
  constructor
  · intro a b now hline
    obtain ⟨s, hs, inbox, tick, i, hi, hline⟩ := exists_of_mem_log hn hline
    have hle : (run env n s).refused ≤ (run env n t).refused := refused_mono hn (by omega)
    obtain ⟨-, acc⟩ := lossless_run (t := s) hn (by omega : (run env n s).refused = 0)
    obtain ⟨ha, hnow, j, hj, hb, hjs, hfail⟩ :=
      removed_failed (runInv_run hn env s) tick acc hi hline
    exact ⟨i, hi, j, hj, s, by omega, ha, hb, hnow, hjs, hfail⟩
  · intro i hi j hj hruni hrunj hhas
    obtain ⟨-, acc⟩ := lossless_run hn hok
    obtain ⟨inbox, tick⟩ := exists_tick hn env t
    have inv := runInv_run hn env t
    rcases done_cases inv inbox hi with ⟨hst, -⟩ | ⟨-, hturn⟩ | ⟨-, hrun, -⟩
    · have := (running_iff.mp hruni).1
      omega
    · by_cases hij : i = j
      · subst hij
        rw [Has, tick.memberList hi]
        obtain ⟨me, others, hlist, hme, -⟩ := hturn.ok.cons
        refine ⟨me, hlist ▸ List.mem_cons_self, ?_⟩
        rw [hme, hturn.addr, inv.addr i hi]
      · exact has_of_has inv tick acc hi hj hij hruni hrunj hturn hhas
    · rw [hruni] at hrun
      cases hrun

/-- Node 1 fails after tick 10; nothing is lost. -/
def oneFailure : Environment where
  lost := fun _ => false
  fails := fun t i => t = 10 && i = 1

/-- Node 0 removes it in tick 29, and no other node is removed. -/
theorem live_never_removed_oneFailure :
    (run oneFailure 3 30).refused = 0 ∧
    .nodeRemove (nodeAddr 0) (nodeAddr 1) 29 ∈ (run oneFailure 3 31).log ∧
    ∀ a b (now : Int), .nodeRemove a b now ∈ (run oneFailure 3 31).log →
      ∃ i < 3, ∃ j < 3, ∃ s ≤ (30 : Nat), a = nodeAddr i ∧ b = nodeAddr j ∧ now = s ∧
        startTime j < s ∧ ((run oneFailure 3 s).mp1 j).bFailed = true := by
  have hok : (run oneFailure 3 30).refused = 0 := by decide +kernel
  refine ⟨hok, by decide +kernel, ?_⟩
  exact (live_never_removed oneFailure (by decide) hok).1

end Cluster

end CloudComputing.MembershipProtocol
