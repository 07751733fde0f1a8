import Mathlib.Algebra.BigOperators.Group.Finset.Basic
import Mathlib.Algebra.GroupWithZero.Action.Defs
import Mathlib.Algebra.Order.BigOperators.Group.Finset
import CloudComputing.MembershipProtocol.Traffic
import CloudComputing.MembershipProtocol.Views

/-!
# The buffer of the network never fills up

`ENsend` refuses a message when `ENBUFFSIZE` messages are in the buffer.  Those
for a live node stay there for one tick; those for a node that failed stay for
good, but the others forget it after `TREMOVE` ticks.  With at most ten nodes
both together fit, so that without random drops nothing is ever refused.
-/

namespace CloudComputing.MembershipProtocol

namespace Cluster

variable {env : Environment} {n t i j : Nat} {c c' : Cluster} {inbox : Nat → List Msg}
  {l : List Nat} {ss : List Send}

def mail (c : Cluster) : List Send :=
  c.en.buff.map fun p => ⟨p.dst, p.data⟩

def asking (ss : List Send) : Nat :=
  requests (ss.map Send.msg)

theorem mem_mail {a : Address} {x : Msg} : ⟨a, x⟩ ∈ c.mail ↔ c.InFlight a x := by
  simp [mail, InFlight]

@[simp] theorem length_mail : c.mail.length = c.en.buff.length := by
  simp [mail]

theorem length_le_of_toward {B : Nat} (hdst : ∀ s ∈ ss, ∃ j < n, s.toaddr = nodeAddr j)
    (hB : ∀ j < n, toward (nodeAddr j) ss ≤ B) : ss.length ≤ n * B := by
  have hcount : ∀ b, (ss.map Send.toaddr).count b = toward b ss := by
    intro b
    rw [List.count, List.countP_map, toward]
    exact List.countP_congr fun s _ => by simp
  have hsub : (ss.map Send.toaddr).toFinset ⊆ (Finset.range n).image nodeAddr := by
    intro b hb
    obtain ⟨s, hs, rfl⟩ := List.mem_map.mp (List.mem_toFinset.mp hb)
    obtain ⟨j, hj, ha⟩ := hdst s hs
    exact Finset.mem_image.mpr ⟨j, Finset.mem_range.mpr hj, ha.symm⟩
  calc ss.length = ∑ b ∈ (ss.map Send.toaddr).toFinset, (ss.map Send.toaddr).count b := by
        rw [List.sum_toFinset_count_eq_length, List.length_map]
    _ ≤ ∑ b ∈ (Finset.range n).image nodeAddr, (ss.map Send.toaddr).count b :=
        Finset.sum_le_sum_of_subset hsub
    _ ≤ ((Finset.range n).image nodeAddr).card • B := by
        apply Finset.sum_le_card_nsmul
        intro b hb
        obtain ⟨j, hj, rfl⟩ := Finset.mem_image.mp hb
        rw [hcount]
        exact hB j (Finset.mem_range.mp hj)
    _ ≤ n * B := by
        rw [smul_eq_mul]
        apply Nat.mul_le_mul_right
        simpa using Finset.card_image_le (s := Finset.range n) (f := nodeAddr)

theorem countP_flatMap_le {α β : Type} {p : β → Bool} {B : Nat} {f : α → List β} {l : List α}
    (hB : ∀ x ∈ l, (f x).countP p ≤ B) : (l.flatMap f).countP p ≤ l.length * B := by
  rw [List.countP_flatMap]
  have hsum := List.sum_le_card_nsmul (l.map (List.countP p ∘ f)) B (by simpa using hB)
  simpa using hsum

/-! ## Sending while there is room -/

section Sending

variable (hlost : ∀ k, env.lost k = false)

include hlost

theorem mail_enSend (t : Nat) (a : Address) (s : Send)
    (hroom : c.mail.length < EmulNet.enBuffSize) :
    (c.enSend env t a s).mail = c.mail ++ [s] ∧ (c.enSend env t a s).refused = c.refused := by
  have haccept : c.en.refuses (env.lost c.draws) msgSize = false := by
    rw [length_mail] at hroom
    rw [EmulNet.refuses, hlost, decide_eq_false (Nat.not_le.mpr hroom)]
    rfl
  constructor
  · show (c.en.enSend (env.lost c.draws) t a s.toaddr s.msg msgSize).1.buff.map _ = _
    rw [EmulNet.enSend_accepted haccept]
    simp [mail]
  · simp only [enSend, EmulNet.enSend, haccept, Bool.false_eq_true, if_false]
    rfl

theorem mail_foldl (t : Nat) (a : Address)
    (hroom : c.mail.length + ss.length ≤ EmulNet.enBuffSize) :
    (ss.foldl (enSend env t a) c).mail = c.mail ++ ss ∧
      (ss.foldl (enSend env t a) c).refused = c.refused := by
  induction ss generalizing c with
  | nil => simp
  | cons s ss ih =>
      rw [List.length_cons] at hroom
      obtain ⟨hmail, href⟩ := mail_enSend hlost t a s (c := c) (by omega)
      have hroom' : (c.enSend env t a s).mail.length + ss.length ≤ EmulNet.enBuffSize := by
        rw [hmail, List.length_append, List.length_singleton]
        omega
      obtain ⟨hmails, hrefs⟩ := ih hroom'
      rw [List.foldl_cons, hmails, hrefs, hmail, href, List.append_assoc]
      exact ⟨rfl, rfl⟩

theorem mail_runNode
    (hroom : c.mail.length + (turn t i (c.mp1 i)).sent.length ≤ EmulNet.enBuffSize) :
    (c.runNode env t i).mail = c.mail ++ (turn t i (c.mp1 i)).sent ∧
      (c.runNode env t i).refused = c.refused := by
  have hcall : ∀ f : Call → Call,
      c.mail.length + (f (c.mp1 i).call).sent.length ≤ EmulNet.enBuffSize →
      (c.call env t i f).mail = c.mail ++ (f (c.mp1 i).call).sent ∧
        (c.call env t i f).refused = c.refused :=
    fun f hroom => mail_foldl hlost t (c.mp1 i).addr (c := { c with
      mp1 := Function.update c.mp1 i (f (c.mp1 i).call).member
      log := c.log ++ (f (c.mp1 i).call).log }) hroom
  unfold turn at hroom ⊢
  unfold runNode
  by_cases hstart : t = startTime i
  · rw [if_pos hstart] at hroom ⊢
    rw [if_pos hstart]
    exact hcall (Call.nodeStart t) hroom
  rw [if_neg hstart] at hroom ⊢
  rw [if_neg hstart]
  by_cases hrun : running t i (c.mp1 i) = true
  · rw [if_pos hrun] at hroom ⊢
    rw [if_pos hrun]
    exact hcall (Call.nodeLoop t) hroom
  · rw [if_neg hrun, if_neg hrun]
    exact ⟨(List.append_nil _).symm, rfl⟩

theorem mail_runNode_foldl (hl : l.Nodup)
    (hroom : c.mail.length + (l.flatMap fun i => (turn t i (c.mp1 i)).sent).length ≤
      EmulNet.enBuffSize) :
    (l.foldl (runNode env t) c).mail =
        c.mail ++ (l.flatMap fun i => (turn t i (c.mp1 i)).sent) ∧
      (l.foldl (runNode env t) c).refused = c.refused := by
  induction l generalizing c with
  | nil => simp
  | cons i l ih =>
      obtain ⟨hil, hl⟩ := List.nodup_cons.mp hl
      rw [List.flatMap_cons, List.length_append] at hroom
      obtain ⟨hmail, href⟩ := mail_runNode hlost (c := c) (t := t) (i := i) (by omega)
      have hsame : (l.flatMap fun j => (turn t j ((c.runNode env t i).mp1 j)).sent) =
          l.flatMap fun j => (turn t j (c.mp1 j)).sent := by
        apply List.flatMap_congr
        intro j hj
        have hji : j ≠ i := fun h => hil (h ▸ hj)
        rw [(runNode_spec env t i c).2.1, Function.update_of_ne hji]
      have hroom' : (c.runNode env t i).mail.length +
          (l.flatMap fun j => (turn t j ((c.runNode env t i).mp1 j)).sent).length ≤
            EmulNet.enBuffSize := by
        rw [hsame, hmail, List.length_append]
        omega
      obtain ⟨hmails, hrefs⟩ := ih hl hroom'
      rw [List.foldl_cons, hmails, hrefs, hmail, href, hsame, List.flatMap_cons,
        List.append_assoc]
      exact ⟨rfl, rfl⟩

end Sending

/-! ## Receiving -/

theorem recvLoop_counts (t i : Nat) (c : Cluster) :
    (∀ b, toward b (c.recvLoop t i).mail ≤ toward b c.mail) ∧
      requests ((c.recvLoop t i).mp1 i).mp1q + asking (c.recvLoop t i).mail =
        requests (c.mp1 i).mp1q + asking c.mail := by
  have hkept := EmulNet.enRecv_buff t (c.mp1 i).addr c.en
  have hfound := EmulNet.enRecv_delivered t (c.mp1 i).addr c.en
  rcases hrecv : c.en.enRecv t (c.mp1 i).addr with ⟨en, found⟩
  rw [hrecv] at hkept hfound
  have hmail : (c.recvLoop t i).mail = en.buff.map fun p => ⟨p.dst, p.data⟩ := by
    rw [mail, recvLoop, hrecv]
  have hqueue : ((c.recvLoop t i).mp1 i).mp1q = (c.mp1 i).mp1q ++ found.map EnMsg.data := by
    rw [recvLoop, hrecv]
    simp
  constructor
  · intro b
    rw [hmail, mail, toward, toward, List.countP_map, List.countP_map, hkept.countP_eq]
    exact List.Sublist.countP_le List.filter_sublist
  · rw [hmail, hqueue, mail]
    simp only [requests, asking, List.countP_append, List.countP_map, hkept.countP_eq,
      hfound.countP_eq, Function.comp_def]
    rw [Nat.add_assoc, List.countP_eq_countP_filter_add c.en.buff _
      (EmulNet.addressedTo (c.mp1 i).addr)]

theorem recvIfRunning_counts (t i : Nat) (c : Cluster) :
    (∀ b, toward b (c.recvIfRunning t i).mail ≤ toward b c.mail) ∧
      asking (c.recvIfRunning t i).mail ≤ asking c.mail ∧
      ∀ j, requests ((c.recvIfRunning t i).mp1 j).mp1q + asking (c.recvIfRunning t i).mail ≤
        requests (c.mp1 j).mp1q + asking c.mail := by
  unfold recvIfRunning
  by_cases hrun : running t i (c.mp1 i) = true
  case neg =>
    rw [if_neg hrun]
    exact ⟨fun b => le_rfl, le_rfl, fun j => le_rfl⟩
  case pos =>
    rw [if_pos hrun]
    obtain ⟨htoward, hasking⟩ := recvLoop_counts t i c
    have hmore : requests (c.mp1 i).mp1q ≤ requests ((c.recvLoop t i).mp1 i).mp1q := by
      show _ ≤ requests (Function.update c.mp1 i _ i).mp1q
      rw [Function.update_self]
      simp [requests, List.countP_append]
    refine ⟨htoward, by omega, fun j => ?_⟩
    by_cases hji : j = i
    · subst hji
      omega
    · have hother : (c.recvLoop t i).mp1 j = c.mp1 j := Function.update_of_ne hji _ _
      rw [hother]
      omega

theorem recv_foldl_counts (t : Nat) (l : List Nat) (c : Cluster) :
    (∀ b, toward b (l.foldl (recvIfRunning t) c).mail ≤ toward b c.mail) ∧
      asking (l.foldl (recvIfRunning t) c).mail ≤ asking c.mail ∧
      ∀ j, requests ((l.foldl (recvIfRunning t) c).mp1 j).mp1q +
          asking (l.foldl (recvIfRunning t) c).mail ≤
        requests (c.mp1 j).mp1q + asking c.mail := by
  induction l generalizing c with
  | nil => exact ⟨fun b => le_rfl, le_rfl, fun j => le_rfl⟩
  | cons i l ih =>
      obtain ⟨htoward, hasking, hqueue⟩ := recvIfRunning_counts t i c
      obtain ⟨htowards, haskings, hqueues⟩ := ih (c.recvIfRunning t i)
      exact ⟨fun b => (htowards b).trans (htoward b), haskings.trans hasking,
        fun j => (hqueues j).trans (hqueue j)⟩

/-! ## A tick, counted -/

def outgoing (n t : Nat) (c : Cluster) (inbox : Nat → List Msg) : List Send :=
  (List.range n).reverse.flatMap fun i => (c.done t inbox i).sent

/-- What the tick did to the buffer: `kept` stayed in it. -/
structure Counted (n t : Nat) (c c' : Cluster) (inbox : Nat → List Msg) (kept : List Send) :
    Prop where
  stays : ∀ b, toward b kept ≤ toward b c.mail
  left : ∀ a x, ⟨a, x⟩ ∈ kept → c.InFlight a x ∧
    ∀ i < n, running t i (c.mp1 i) = true → a ≠ nodeAddr i
  asked : ∀ i < n, running t i (c.mp1 i) = true → requests (inbox i) ≤ asking c.mail
  mail : kept.length + (outgoing n t c inbox).length ≤ EmulNet.enBuffSize →
    c'.mail = kept ++ outgoing n t c inbox ∧ c'.refused = c.refused

theorem exists_counted (hn : n < 256) (hlost : ∀ k, env.lost k = false) (t : Nat) :
    ∃ inbox kept, Tick env n t (run env n t) (run env n (t + 1)) inbox ∧
      Counted n t (run env n t) (run env n (t + 1)) inbox kept := by
  have inv := runInv_run hn env t
  obtain ⟨inbox, hf⟩ := fetched_foldl (t := t) hn List.nodup_range
    (fun i hi => List.mem_range.mp hi) inv.addressed
  let fetched := (List.range n).foldl (recvIfRunning t) (run env n t)
  obtain ⟨htoward, hasking, hqueue⟩ := recv_foldl_counts t (List.range n) (run env n t)
  refine ⟨inbox, fetched.mail, tick_of_fetched hf, ?_⟩
  constructor
  case stays => exact htoward
  case left =>
    intro a x hx
    obtain ⟨hx, hne⟩ := (hf.inFlight a x).mp (mem_mail.mp hx)
    exact ⟨hx, fun i hi => hne i (List.mem_range.mpr hi)⟩
  case asked =>
    intro i hi hrun
    have hle := hqueue i
    have hinbox : (fetched.mp1 i).mp1q = inbox i := by
      show (((List.range n).foldl (recvIfRunning t) (run env n t)).mp1 i).mp1q = _
      rw [hf.node i (List.mem_range.mpr hi), received, if_pos hrun, inv.mp1q i hi]
      rfl
    rw [inv.mp1q i hi] at hle
    rw [← hinbox]
    calc requests (fetched.mp1 i).mp1q ≤ requests [] + asking (run env n t).mail :=
          (Nat.le_add_right _ _).trans hle
      _ = asking (run env n t).mail := Nat.zero_add _
  case mail =>
    intro hroom
    have hout : outgoing n t (run env n t) inbox =
        (List.range n).reverse.flatMap fun i => (turn t i (fetched.mp1 i)).sent := by
      apply List.flatMap_congr
      intro i hi
      rw [List.mem_reverse] at hi
      show _ = (turn t i (((List.range n).foldl (recvIfRunning t) (run env n t)).mp1 i)).sent
      rw [hf.node i hi, done]
    rw [hout] at hroom ⊢
    obtain ⟨hmail, href⟩ := mail_runNode_foldl hlost
      (List.nodup_reverse.mpr List.nodup_range) hroom
    exact ⟨hmail, href.trans hf.refused⟩

/-! ## How far the heartbeats have come -/

theorem heartbeat_le_time (hn : n < 256) (hi : i < n) :
    ((run env n t).mp1 i).heartbeat ≤ t := by
  induction t with
  | zero =>
      rw [run, init_node hi]
      exact le_rfl
  | succ t ih =>
      obtain ⟨inbox, tick⟩ := exists_tick hn env t
      rw [tick.heartbeat hi]
      push_cast
      rcases done_cases (runInv_run hn env t) inbox hi with ⟨-, h⟩ | ⟨-, h⟩ | ⟨-, -, h⟩
      · rw [h, (nodeStart_spec _ _).1]
        show (0 : Int) ≤ t + 1
        omega
      · rw [h.heartbeat]
        split <;> omega
      · rw [h]
        show ((run env n t).mp1 i).heartbeat ≤ t + 1
        omega

section OneTick

variable (hn : n < 256) (inv : RunInv n t c) (tick : Tick env n t c c' inbox)

theorem length_addresses_le {es : List MemberListEntry}
    (hnodup : (es.map MemberListEntry.address).Nodup)
    (hnode : ∀ e ∈ es, ∃ j < n, e.address = nodeAddr j) : es.length ≤ n := by
  have hsub : es.map MemberListEntry.address ⊆ (List.range n).map nodeAddr := by
    intro a ha
    obtain ⟨e, he, rfl⟩ := List.mem_map.mp ha
    obtain ⟨j, hj, hea⟩ := hnode e he
    exact List.mem_map.mpr ⟨j, List.mem_range.mpr hj, hea.symm⟩
  calc es.length = (es.map MemberListEntry.address).length := (List.length_map _).symm
    _ ≤ ((List.range n).map nodeAddr).length := (hnodup.subperm hsub).length_le
    _ = n := by rw [List.length_map, List.length_range]

include inv tick

theorem queue_known (hi : i < n) (hrun : running t i (c.mp1 i) = true) {x : Msg}
    (hx : x ∈ inbox i) : Known n t c x.addr x.heartbeat :=
  inv.msg _ _ ((tick.queue i hi hrun x).mp hx)

theorem toward_done_early (hbeat : ∀ j < n, (c.mp1 j).heartbeat ≤ t) (hi : i < n) {R : Nat}
    (hasked : running t i (c.mp1 i) = true → requests (inbox i) ≤ R) (b : Address) :
    toward b (c.done t inbox i).sent ≤ R + n * t + 1 := by
  rcases done_cases inv inbox hi with ⟨-, h⟩ | ⟨hrun, -⟩ | ⟨-, -, h⟩
  · have hone : (c.done t inbox i).sent.length ≤ 1 := by
      rw [h, (nodeStart_spec _ _).2.1]
      split
      · exact Nat.zero_le 1
      · exact le_rfl
    have hle : toward b (c.done t inbox i).sent ≤ (c.done t inbox i).sent.length :=
      List.countP_le_length
    omega
  · obtain ⟨hstarted, hlive⟩ := running_iff.mp hrun
    have ok := inv.ok i hi hstarted
    have ok' : MemberListOk { c.mp1 i with mp1q := inbox i } := ⟨ok.head, ok.nodup⟩
    have hle : ∀ a k, Known n t c a k → 0 ≤ k ∧ k ≤ (t : Int) := by
      rintro a k ⟨j, hj, -, -, h0, hk⟩
      exact ⟨h0, hk.trans (hbeat j hj)⟩
    have hhandled : Handled t (inbox i)
        ({ { c.mp1 i with mp1q := inbox i } with mp1q := [] } : Member).call
        (({ c.mp1 i with mp1q := inbox i } : Member).call.checkMessages t) :=
      handled_checkMessages (c := ({ c.mp1 i with mp1q := inbox i } : Member).call) ok'
    have hlength := length_addresses_le (n := n) hhandled.ok.nodup (by
      intro e he
      rcases hhandled.entries e he with he | ⟨-, x, hx, hxa, -⟩
      · obtain ⟨j, hj, -, ha, -⟩ := (inv.entry i hi e he).1
        exact ⟨j, hj, ha⟩
      · obtain ⟨j, hj, -, ha, -⟩ := queue_known inv tick hi hrun hx
        exact ⟨j, hj, hxa.symm.trans ha⟩)
    have hbound : (toward b (({ c.mp1 i with mp1q := inbox i } : Member).call.nodeLoop t).sent :
        Int) ≤ requests (inbox i) + n * t + 1 := toward_le_of_bounded (H := t) b ok' hlive (by omega)
      (fun x hx => hle _ _ (queue_known inv tick hi hrun hx))
      (fun e he => hle _ _ (inv.entry i hi e he).1) hlength
    have hR := hasked hrun
    rw [done_nodeLoop inv hi hrun]
    rw [← Nat.cast_mul] at hbound
    generalize n * t = beaten at hbound ⊢
    omega
  · rw [h]
    exact Nat.zero_le _

omit tick in
theorem asking_outgoing : asking (outgoing n t c inbox) ≤ n := by
  have hone : ∀ i ∈ (List.range n).reverse, (c.done t inbox i).sent.countP
      (fun s => s.msg.msgType = .joinReq) ≤ 1 := by
    intro i hi
    have hi : i < n := by simpa using hi
    rcases done_cases inv inbox hi with ⟨-, h⟩ | ⟨-, h⟩ | ⟨-, -, h⟩
    · rw [h, (nodeStart_spec _ _).2.1]
      split
      · exact Nat.zero_le 1
      · exact List.countP_le_length
    · rw [List.countP_eq_zero.mpr]
      · exact Nat.zero_le 1
      · rintro ⟨a, x⟩ hs hreq
        exact not_joinReq h hs (by simpa using hreq)
    · rw [h]
      exact Nat.zero_le 1
  have hall := countP_flatMap_le hone
  rw [asking, requests, List.countP_map, outgoing]
  simpa [Function.comp_def] using hall

theorem outgoing_dst : ∀ s ∈ outgoing n t c inbox, ∃ j < n, s.toaddr = nodeAddr j := by
  rintro ⟨a, x⟩ hs
  obtain ⟨i, hi, hs⟩ := List.mem_flatMap.mp hs
  obtain ⟨h, j, hj, -, ha, -⟩ := (known_of_sent inv tick (by simpa using hi) hs).1
  exact ⟨j, hj, ha⟩

end OneTick

/-! ## Until the first failure -/

theorem refused_init (n : Nat) : (init n).refused = 0 := (initNode_range n _ rfl).2.2.1

theorem mail_init (n : Nat) : (init n).mail = [] := by
  have hbuff : (init n).en.buff = [] := (initNode_range n _ rfl).2.1
  rw [mail, hbuff]
  rfl

theorem toward_outgoing_le {B : Nat} {b : Address}
    (hB : ∀ i < n, toward b (c.done t inbox i).sent ≤ B) :
    toward b (outgoing n t c inbox) ≤ n * B := by
  have hsum := countP_flatMap_le (p := fun s => s.toaddr = b) (l := (List.range n).reverse)
    (f := fun i => (c.done t inbox i).sent) fun i hi => hB i (by simpa using hi)
  rwa [List.length_reverse, List.length_range] at hsum

/-- While nobody fails, the buffer holds what was sent in the last tick. -/
theorem early (hn : n ≤ 10) (hlost : ∀ k, env.lost k = false)
    (hlive : ∀ s < 22, ∀ i, env.fails s i = false) (ht : t ≤ 22) :
    (run env n t).refused = 0 ∧ asking (run env n t).mail ≤ n ∧
      (run env n t).mail.length ≤ 25300 := by
  have hn' : n < 256 := by omega
  induction t with
  | zero =>
      rw [run, refused_init, mail_init]
      exact ⟨rfl, Nat.zero_le n, Nat.zero_le _⟩
  | succ t ih =>
      obtain ⟨href, hasking, -⟩ := ih (by omega)
      obtain ⟨inbox, kept, tick, counted⟩ := exists_counted hn' hlost t
      have inv := runInv_run hn' env t
      have hnone : kept = [] := by
        apply List.eq_nil_iff_forall_not_mem.mpr
        rintro ⟨a, x⟩ hs
        obtain ⟨hx, hne⟩ := counted.left a x hs
        obtain ⟨h, k, hk, hstarted, rfl, -⟩ := inv.dst a x hx
        have hlivek := not_failed_until (t := t) hn' hk fun s hs => hlive s (by omega) k
        exact hne k hk (running_iff.mpr ⟨hstarted, hlivek⟩) rfl
      have htoward : ∀ j < n, toward (nodeAddr j) (outgoing n t (run env n t) inbox) ≤
          n * (n + n * t + 1) := fun j _ => toward_outgoing_le fun i hi =>
        toward_done_early inv tick (fun k hk => heartbeat_le_time hn' hk) hi
          (fun hrun => (counted.asked i hi hrun).trans hasking) _
      have hlength : (outgoing n t (run env n t) inbox).length ≤ 25300 :=
        calc (outgoing n t (run env n t) inbox).length ≤ n * (n * (n + n * t + 1)) :=
              length_le_of_toward (outgoing_dst inv tick) htoward
          _ ≤ 10 * (10 * (10 + 10 * 21 + 1)) := by gcongr; omega
          _ ≤ 25300 := by decide
      have hfits : EmulNet.enBuffSize = 30000 := rfl
      obtain ⟨hmail, hsame⟩ := counted.mail (by
        rw [hnone, hfits, List.length_nil]
        omega)
      rw [hnone, List.nil_append] at hmail
      rw [hmail, hsame]
      exact ⟨href, asking_outgoing inv, hlength⟩

/-! ## From then on -/

/-- What bounds the buffer before tick `t`, when everyone has heard of everyone. -/
structure Bounded (n t : Nat) (c : Cluster) : Prop where
  together : Together n t c
  near : ∀ i < n, running t i (c.mp1 i) = true → ∀ j < n, ∀ e ∈ (c.mp1 i).memberList,
    e.address = nodeAddr j → (c.mp1 j).heartbeat ≤ e.heartbeat + 1
  /-- messages to a node that failed pile up for `TREMOVE` ticks after its last ping arrived -/
  backlog : ∀ j < n, ∃ p, Fresh n t c j p ∧ (running t j (c.mp1 j) = false →
    toward (nodeAddr j) c.mail ≤ n * (n + 1) * min (t - p) 23)

section Crowd

variable (hn : n < 256) (inv : RunInv n t c) (tick : Tick env n t c c' inbox)
  (together : Together n t c) (fresh : ∀ j < n, ∃ p, Fresh n t c j p)

include hn inv tick together fresh in
theorem near_tick (hi : i < n) (hlive : running (t + 1) i (c'.mp1 i) = true) (hj : j < n)
    {e : MemberListEntry} (he : e ∈ (c'.mp1 i).memberList) (ha : e.address = nodeAddr j) :
    (c'.mp1 j).heartbeat ≤ e.heartbeat + 1 := by
  obtain ⟨p, hp⟩ := fresh j hj
  obtain ⟨hrun, -⟩ := turn_of_live inv tick together.started hi hlive
  by_cases hping : running t j (c.mp1 j) = true ∧ (c.mp1 j).pingCounter = 0
  · -- the ping is one ahead of what everyone has heard
    have hcounter := hp.counter hping.1
    rw [hping.2, tFail] at hcounter
    have hturnj := turn_of_running inv together.started inbox hj hping.1
    have hbeat : (c'.mp1 j).heartbeat ≤ (c.mp1 j).heartbeat + 1 := by
      rw [tick.heartbeat hj, hturnj.heartbeat]
      split <;> omega
    have hquiet := quietTurn_done inv tick together hi hrun (a := nodeAddr j)
      fun x => oldNews_of_fresh hn inv hj hp (by omega) hi hrun
    rw [tick.memberList hi, hquiet.entries e ha] at he
    obtain ⟨rfl, -⟩ := (hp.heard (by omega) i hi hrun e ha).mp he.1
    exact hbeat
  · have hlt := hp.lt
    have hbetween := fresh_between hn inv tick together hj hping hp
    obtain ⟨rfl, -⟩ := (hbetween.heard (by omega) i hi hlive e ha).mp he
    show (c'.mp1 j).heartbeat ≤ (c'.mp1 j).heartbeat + 1
    omega

include hn inv tick together fresh in
/-- A running node sends nobody more than one message about every node, and a ping. -/
theorem toward_done (near : ∀ i < n, running t i (c.mp1 i) = true → ∀ j < n,
    ∀ e ∈ (c.mp1 i).memberList, e.address = nodeAddr j → (c.mp1 j).heartbeat ≤ e.heartbeat + 1)
    (hi : i < n) (b : Address) : toward b (c.done t inbox i).sent ≤ n + 1 := by
  rcases done_cases inv inbox hi with ⟨hst, -⟩ | ⟨hrun, -⟩ | ⟨-, -, h⟩
  · have := together.started i hi
    omega
  · obtain ⟨hstarted, hlive⟩ := running_iff.mp hrun
    have ok := inv.ok i hi hstarted
    have ok' : MemberListOk { c.mp1 i with mp1q := inbox i } := ⟨ok.head, ok.nodup⟩
    have hlength := length_addresses_le (n := n) ok.nodup fun e he => by
      obtain ⟨j, hj, -, ha, -⟩ := (inv.entry i hi e he).1
      exact ⟨j, hj, ha⟩
    have hbound : toward b (({ c.mp1 i with mp1q := inbox i } : Member).call.nodeLoop t).sent ≤
        (c.mp1 i).memberList.length + 1 := by
      apply toward_le_of_close t b ok' hlive
      case hnonneg =>
        intro x hx
        obtain ⟨j, hj, -, -, h0, -⟩ := queue_known inv tick hi hrun hx
        exact h0
      case hrequests =>
        intro x hx
        exact together.noRequest i hi hrun x ((tick.queue i hi hrun x).mp hx)
      case hknown =>
        intro x hx
        obtain ⟨j, hj, -, ha, -⟩ := queue_known inv tick hi hrun hx
        obtain ⟨p, hp⟩ := fresh j hj
        rw [ha]
        by_cases hfar : p + 1 < t
        · obtain ⟨e, he, hea, -⟩ := oldNews_of_fresh hn inv hj hp hfar hi hrun
            ((tick.queue i hi hrun x).mp hx) ha
          exact ⟨e, he, hea⟩
        · have hlt := hp.lt
          obtain ⟨-, e, he, hea, -⟩ := hp.flying (by omega) i hi hrun
          exact ⟨e, he, hea⟩
      case hclose =>
        intro x hx e he hea
        obtain ⟨j, hj, -, ha, -, hle⟩ := queue_known inv tick hi hrun hx
        have hnear := near i hi hrun j hj e he (hea.trans ha)
        omega
    rw [done_nodeLoop inv hi hrun]
    omega
  · rw [h]
    exact Nat.zero_le _

include inv tick together in
theorem toward_forgotten {p : Nat} (hp : Fresh n t c j p) (hlate : p + 22 < t)
    (hi : i < n) : toward (nodeAddr j) (c.done t inbox i).sent = 0 := by
  rcases done_cases inv inbox hi with ⟨hst, -⟩ | ⟨hrun, hturn⟩ | ⟨-, -, h⟩
  · have := together.started i hi
    omega
  · apply toward_eq_zero
    rintro ⟨a, x⟩ hs rfl
    have hsilent : ∀ y ∈ inbox i, y.addr ≠ nodeAddr j := fun y hy =>
      hp.silent (by omega) i hi hrun y ((tick.queue i hi hrun y).mp hy)
    rcases hturn.sends _ hs with ⟨y, hy, -, hsend⟩ | ⟨⟨e, he, ha⟩ | ⟨y, hy, ha⟩, -⟩
    · exact hsilent y hy (Send.mk.inj hsend).1.symm
    · obtain ⟨-, hle⟩ := (hp.heard (by omega) i hi hrun e ha).mp he
      omega
    · exact hsilent y hy ha
  · rw [h]
    rfl

variable {kept : List Send} (counted : Counted n t c c' inbox kept) (bounded : Bounded n t c)

include hn inv tick counted bounded

/-- What is in the buffer for node `j` when everything has been sent. -/
theorem toward_after (hj : j < n) : ∃ p, Fresh n t c j p ∧
    toward (nodeAddr j) (kept ++ outgoing n t c inbox) ≤ n * (n + 1) * min (t + 1 - p) 23 ∧
    (running t j (c.mp1 j) = true →
      toward (nodeAddr j) (kept ++ outgoing n t c inbox) ≤ n * (n + 1)) := by
  obtain ⟨p, hp, hbacklog⟩ := bounded.backlog j hj
  have fresh : ∀ j < n, ∃ p, Fresh n t c j p := fun j hj =>
    let ⟨p, hp, _⟩ := bounded.backlog j hj
    ⟨p, hp⟩
  have hlt := hp.lt
  have hout : toward (nodeAddr j) (outgoing n t c inbox) ≤ n * (n + 1) :=
    toward_outgoing_le fun i hi =>
      toward_done hn inv tick bounded.together fresh bounded.near hi _
  refine ⟨p, hp, ?_⟩
  rw [toward_append]
  by_cases hrun : running t j (c.mp1 j) = true
  · have hkept : toward (nodeAddr j) kept = 0 := by
      apply toward_eq_zero
      rintro ⟨a, x⟩ hs ha
      exact (counted.left a x hs).2 j hj hrun ha
    have hle : n * (n + 1) * 1 ≤ n * (n + 1) * min (t + 1 - p) 23 :=
      Nat.mul_le_mul_left _ (by omega)
    exact ⟨by omega, fun _ => by omega⟩
  · have hold := (counted.stays (nodeAddr j)).trans (hbacklog (by simpa using hrun))
    refine ⟨?_, fun h => absurd h hrun⟩
    by_cases hlate : p + 22 < t
    · have hnone : toward (nodeAddr j) (outgoing n t c inbox) = 0 := by
        have := toward_outgoing_le (n := n) (B := 0) fun i hi =>
          (toward_forgotten inv tick bounded.together hp hlate hi).le
        omega
      have hle : n * (n + 1) * min (t - p) 23 ≤ n * (n + 1) * min (t + 1 - p) 23 :=
        Nat.mul_le_mul_left _ (by omega)
      omega
    · calc _ ≤ n * (n + 1) * min (t - p) 23 + n * (n + 1) := Nat.add_le_add hold hout
        _ = n * (n + 1) * (min (t - p) 23 + 1) := rfl
        _ ≤ n * (n + 1) * min (t + 1 - p) 23 := Nat.mul_le_mul_left _ (by omega)

theorem bounded_tick (hsmall : n ≤ 10) (acc : Accurate n t c) :
    c'.refused = c.refused ∧ Bounded n (t + 1) c' ∧ c'.mail.length ≤ 25300 := by
  have hafter := fun {j} (hj : j < n) => toward_after hn inv tick counted bounded hj
  have hdst : ∀ s ∈ kept ++ outgoing n t c inbox, ∃ j < n, s.toaddr = nodeAddr j := by
    rintro ⟨a, x⟩ hs
    rcases List.mem_append.mp hs with hs | hs
    · obtain ⟨h, j, hj, -, ha, -⟩ := inv.dst a x (counted.left a x hs).1
      exact ⟨j, hj, ha⟩
    · exact outgoing_dst inv tick _ hs
  have hlength : (kept ++ outgoing n t c inbox).length ≤ 25300 := by
    calc (kept ++ outgoing n t c inbox).length ≤ n * (n * (n + 1) * 23) := by
          apply length_le_of_toward hdst
          intro j hj
          obtain ⟨p, -, hle, -⟩ := hafter hj
          exact hle.trans (Nat.mul_le_mul_left _ (Nat.min_le_right _ _))
      _ ≤ 10 * (10 * (10 + 1) * 23) := by gcongr
      _ = 25300 := rfl
  have hfits : EmulNet.enBuffSize = 30000 := rfl
  obtain ⟨hmail, hok⟩ := counted.mail (by
    rw [List.length_append] at hlength
    omega)
  rw [hmail]
  refine ⟨hok, ?_, hlength⟩
  have fresh : ∀ j < n, ∃ p, Fresh n t c j p := fun j hj =>
    let ⟨p, hp, _⟩ := hafter hj
    ⟨p, hp⟩
  constructor
  case together => exact together_tick inv tick acc bounded.together
  case near =>
    intro i hi hlive j hj e he ha
    exact near_tick hn inv tick bounded.together fresh hi hlive hj he ha
  case backlog =>
    intro j hj
    obtain ⟨p, hp, hle, hlive⟩ := hafter hj
    rw [hmail]
    rcases fresh_tick hn inv tick hok acc bounded.together hj hp with ⟨hping, hrun⟩ | hp'
    · refine ⟨t, hping, fun _ => (hlive hrun).trans ?_⟩
      rw [Nat.add_sub_cancel_left]
      exact (Nat.mul_one _).ge
    · exact ⟨p, hp', fun _ => hle⟩

end Crowd

/-! ## Every run -/

section Run

variable (hn : n ≤ 10) (hlost : ∀ k, env.lost k = false)
  (hlive : ∀ s < 22, ∀ i, env.fails s i = false)

include hn hlost hlive

theorem bounded_start : Bounded n 22 (run env n 22) := by
  have hn' : n < 256 := by omega
  have hS : ∀ i < n, startTime i ≤ 2 := by
    intro i hi
    unfold startTime
    omega
  have href : ∀ t ≤ 22, (run env n t).refused = 0 := fun t ht =>
    (early hn hlost hlive ht).1
  have hbefore : ∀ s < 2 + 19, ∀ i, env.fails s i = false := fun s hs => hlive s (by omega)
  have hfirst := together_start hn' hS hbefore (href 15 (by omega))
  have together := together_run hn' (href 21 (by omega)) (by omega) hfirst
  have fresh : ∀ {t}, 21 ≤ t → t ≤ 22 → ∀ j < n, ∃ p, Fresh n t (run env n t) j p :=
    fun hlow hhigh j hj => exists_fresh hn' hS hbefore hlow (href _ hhigh) hj
  obtain ⟨inbox, tick⟩ := exists_tick hn' env 21
  constructor
  case together => exact together_run hn' (href 22 le_rfl) (by omega) hfirst
  case near =>
    intro i hi hrun j hj e he ha
    exact near_tick hn' (runInv_run hn' env 21) tick together (fresh le_rfl (by omega)) hi hrun hj
      he ha
  case backlog =>
    intro j hj
    obtain ⟨p, hp⟩ := fresh (by omega) le_rfl j hj
    refine ⟨p, hp, fun hnot => ?_⟩
    have hstart := hS j hj
    have hrun : running 22 j ((run env n 22).mp1 j) = true :=
      running_iff.mpr ⟨by omega, not_failed_until hn' hj fun s hs => hlive s hs j⟩
    rw [hrun] at hnot
    cases hnot

theorem bounded_run (ht : 22 ≤ t) : (run env n t).refused = 0 ∧ Bounded n t (run env n t) ∧
    (run env n t).mail.length ≤ 25300 := by
  have hn' : n < 256 := by omega
  induction t, ht using Nat.le_induction with
  | base =>
      obtain ⟨href, -, hlength⟩ := early hn hlost hlive le_rfl
      exact ⟨href, bounded_start hn hlost hlive, hlength⟩
  | succ t ht ih =>
      obtain ⟨href, bounded, -⟩ := ih
      obtain ⟨inbox, kept, tick, counted⟩ := exists_counted hn' hlost t
      obtain ⟨hok, bounded', hlength⟩ := bounded_tick hn' (runInv_run hn' env t) tick counted
        bounded hn (lossless_run hn' href).2
      exact ⟨hok.trans href, bounded', hlength⟩

theorem refused_eq_zero (t : Nat) : (run env n t).refused = 0 ∧
    (run env n t).en.buff.length ≤ 25300 := by
  rw [← length_mail]
  rcases Nat.le_total t 22 with ht | ht
  · obtain ⟨href, -, hlength⟩ := early hn hlost hlive ht
    exact ⟨href, hlength⟩
  · obtain ⟨href, -, hlength⟩ := bounded_run hn hlost hlive ht
    exact ⟨href, hlength⟩

end Run

/-- Without random drops, and with nobody failing before tick 22, up to ten nodes never fill the
buffer: `ENsend` never refuses. -/
theorem nothing_refused (env : Environment) (hn : n ≤ 10) (hlost : ∀ k, env.lost k = false)
    (hlive : ∀ s < 22, ∀ i, env.fails s i = false) (t : Nat) :
    (run env n t).refused = 0 ∧ (run env n t).en.buff.length ≤ 25300 :=
  refused_eq_zero hn hlost hlive t

/-- Half of ten nodes fail at tick 100, as in a test case. -/
def halfFails : Environment where
  lost := fun _ => false
  fails := fun t i => t = 100 && i < 5

theorem nothing_refused_halfFails : (run halfFails 10 700).refused = 0 ∧
    (run halfFails 10 700).en.buff.length ≤ 25300 :=
  nothing_refused halfFails le_rfl (fun _ => rfl)
    (fun s hs i => by
      have hne : s ≠ 100 := by omega
      simp [halfFails, hne]) 700

end Cluster

end CloudComputing.MembershipProtocol
