import Mathlib.Algebra.Order.BigOperators.Group.Finset
import Mathlib.Data.Prod.Lex
import CloudComputing.Minidc.Settled

/-!
# Loading a policy, and clearing the switches

What the threads have begun they finish.  A policy that is loaded in quiet puts in
order whatever there was before, but a policy that has been cleared away is not
loaded again as long as it is the current one.
-/

namespace CloudComputing.Minidc

open Lib FlowTable

/-- How far a remote call is, and how much is left of that. -/
def Rpc.rank : Rpc → Nat × Nat
  | .idle => (0, 0)
  | .applying todo _ => (1, todo.length)
  | .clearing _ todo _ => (2, todo.length)

namespace System

variable {topo : Topology} {tabled : PolicyName → List Str} {s s' : System} {conn : Nat}
  {dpid : Int} {a : Action}

/-! ## Work comes to an end -/

/-- The steps that finish what has been begun. -/
def Work (_ : System) : Action → Prop
  | .take _ => True
  | .handlerStep => True
  | .rpcStep => True
  | _ => False

def backlog (s : System) : Nat :=
  ∑ conn ∈ Finset.range s.conns.length, (s.queue conn).length

def rank (s : System) : Nat ×ₗ Nat ×ₗ Nat :=
  toLex (s.rpc.rank.1, toLex (s.rpc.rank.2 + s.handler.length, s.backlog))

/-- A step of a thread counts for more than the messages it sends. -/
theorem rank_lt_of_thread (h : s'.rpc.rank.1 < s.rpc.rank.1 ∨ s'.rpc.rank.1 = s.rpc.rank.1 ∧
    s'.rpc.rank.2 + s'.handler.length < s.rpc.rank.2 + s.handler.length) : rank s' < rank s := by
  rw [rank, rank, Prod.Lex.toLex_lt_toLex]
  refine h.imp_right fun ⟨hphase, hless⟩ => ⟨hphase, ?_⟩
  rw [Prod.Lex.toLex_lt_toLex]
  exact Or.inl hless

theorem rank_take (hs : Valid topo s) (htake : s.take dpid = some s') : rank s' < rank s := by
  obtain ⟨conn, mod, rest, hlink, hqueue, rfl⟩ := take_cases htake
  have hconn : conn ∈ Finset.range s.conns.length := by
    obtain ⟨datapath, hdatapath, -⟩ := Option.map_eq_some_iff.mp (hs.linked dpid conn hlink)
    exact Finset.mem_range.mpr (List.getElem?_eq_some_iff.mp hdatapath).1
  have hless : ∑ c ∈ Finset.range s.conns.length, (Function.update s.queue conn rest c).length <
      s.backlog := by
    apply Finset.sum_lt_sum
    · intro c _
      by_cases hc : c = conn
      · subst hc
        rw [Function.update_self, hqueue, List.length_cons]
        omega
      · rw [Function.update_of_ne hc]
    · refine ⟨conn, hconn, ?_⟩
      rw [Function.update_self, hqueue, List.length_cons]
      omega
  rw [rank, rank, Prod.Lex.toLex_lt_toLex]
  refine Or.inr ⟨rfl, ?_⟩
  rw [Prod.Lex.toLex_lt_toLex]
  exact Or.inr ⟨rfl, hless⟩

theorem rank_rpcMove (hmove : RpcMove topo s s') : rank s' < rank s := by
  apply rank_lt_of_thread
  cases hmove with
  | abort hrpc =>
      rw [hrpc]
      exact Or.inl Nat.two_pos
  | cleared hrpc =>
      rw [hrpc]
      exact Or.inl Nat.two_pos
  | apply hrpc =>
      rw [hrpc]
      exact Or.inl Nat.one_lt_two
  | applied hrpc =>
      rw [hrpc]
      exact Or.inl Nat.one_pos
  | skip hrpc =>
      rw [hrpc]
      exact Or.inr ⟨rfl, Nat.add_lt_add_right (Nat.lt_succ_self _) _⟩
  | clear hrpc =>
      rw [hrpc]
      exact Or.inr ⟨rfl, Nat.add_lt_add_right (Nat.lt_succ_self _) _⟩
  | add hrpc =>
      rw [hrpc]
      exact Or.inr ⟨rfl, Nat.add_lt_add_right (Nat.lt_succ_self _) _⟩

theorem rank_step (hs : Valid topo s) (hwork : Work s a) (hstep : s.step topo a = some s') :
    rank s' < rank s := by
  cases a with
  | take dpid => exact rank_take hs hstep
  | handlerStep =>
      obtain ⟨conn, entry, rest, hhandler, rfl⟩ := handlerStep_cases hstep
      apply rank_lt_of_thread
      rw [hhandler]
      exact Or.inr ⟨rfl, Nat.add_lt_add_left (Nat.lt_succ_self _) _⟩
  | rpcStep => exact rank_rpcMove (rpcStep_cases hstep)
  | _ => exact hwork.elim

/-- A remote call can always go on. -/
theorem exists_rpcStep (hs : Valid topo s) (hwf : topo.WellFormed) (hbusy : s.rpc ≠ .idle) :
    ∃ s', s.rpcStep topo = some s' := by
  unfold rpcStep
  cases hrpc : s.rpc with
  | idle => exact absurd hrpc hbusy
  | clearing size todo next =>
      simp only
      split
      case isTrue => exact ⟨_, rfl⟩
      case isFalse =>
        cases todo with
        | nil =>
            cases next with
            | none => exact ⟨_, rfl⟩
            | some policy =>
                obtain ⟨policies, table, hread, -⟩ :=
                  hs.policies.exists_routingTable hwf s.monitor.bwstats.hostBw policy
                simp only [applyPolicy, hread]
                exact ⟨_, rfl⟩
        | cons dpid todo =>
            cases hlookup : s.dps.lookup dpid with
            | none =>
                simp only [hlookup]
                exact ⟨_, rfl⟩
            | some conn =>
                simp only [hlookup]
                exact ⟨_, rfl⟩
  | applying todo policy =>
      cases todo with
      | nil => exact ⟨_, rfl⟩
      | cons x todo => exact ⟨_, rfl⟩

theorem eq_of_no_work (hs : Valid topo s) (hwf : topo.WellFormed)
    (hend : ∀ a, Work s a → s.step topo a = none) :
    s.rpc = .idle ∧ s.handler = [] ∧ ∀ dpid, s.stream dpid = [] := by
  refine ⟨?_, ?_, fun dpid => ?_⟩
  · by_contra hbusy
    obtain ⟨s', hstep⟩ := exists_rpcStep hs hwf hbusy
    have hnone : s.rpcStep topo = none := hend .rpcStep trivial
    rw [hstep] at hnone
    cases hnone
  · have hnone : s.handlerStep = none := hend .handlerStep trivial
    unfold handlerStep at hnone
    cases hhandler : s.handler with
    | nil => rfl
    | cons x rest =>
        rw [hhandler] at hnone
        cases hnone
  · have hnone : s.take dpid = none := hend (.take dpid) trivial
    cases hlink : s.link dpid with
    | none => exact stream_none hlink
    | some conn =>
        rw [stream_link hlink]
        cases hqueue : s.queue conn with
        | nil => rfl
        | cons mod rest =>
            simp only [take, hlink, Option.bind_eq_bind, Option.bind_some, hqueue] at hnone
            cases hnone

theorem Reachable.extend {ok ok' : System → Action → Prop} (h : Reachable topo ok s)
    (hrun : Relation.ReflTransGen (Steps topo ok') s s') : Reachable topo (fun _ _ => True) s' := by
  obtain ⟨s₀, hinit, hbefore⟩ := h
  have hany : ∀ {ok : System → Action → Prop} {s s' : System}, Relation.ReflTransGen (Steps topo ok)
      s s' → Relation.ReflTransGen (Steps topo fun _ _ => True) s s' :=
    fun hrun => Relation.ReflTransGen.mono (fun _ _ ⟨a, _, hstep⟩ => ⟨a, trivial, hstep⟩) _ _ hrun
  exact ⟨s₀, hinit, (hany hbefore).trans (hany hrun)⟩

/-- No step of the threads or the switches is left. -/
def AtRest (topo : Topology) (s : System) : Prop :=
  ∀ a, Work s a → s.step topo a = none

theorem Reachable.ends {ok : System → Action → Prop} (h : Reachable topo ok s)
    (hwf : topo.WellFormed) (howned : topo.OwnedVlans) :
    (¬ ∃ run : ℕ → System, run 0 = s ∧ ∀ i, Steps topo Work (run i) (run (i + 1))) ∧
    ∀ s', Relation.ReflTransGen (Steps topo Work) s s' → AtRest topo s' →
      s'.rpc = .idle ∧ s'.handler = [] ∧ ∀ dpid, s'.stream dpid = [] := by
  obtain ⟨tabled, huses⟩ := exists_uses hwf howned
  refine ⟨?_, fun s' hrun hend => ?_⟩
  · apply not_forever rank _ _ (h.valid hwf howned)
    · rintro s s' hs ⟨a, -, hstep⟩
      exact hs.step hwf huses hstep
    · rintro s s' hs ⟨a, hwork, hstep⟩
      exact rank_step hs hwork hstep
  · exact eq_of_no_work ((h.extend hrun).valid hwf howned) hwf hend

/-- Whatever has happened, the threads finish what they have begun: they do not go on forever, and
they stop only when everything has been sent and carried out. -/
theorem work_ends {ok : System → Action → Prop} (hwf : topo.WellFormed) (howned : topo.OwnedVlans)
    (h : Reachable topo ok s) :
    (¬ ∃ run : ℕ → System, run 0 = s ∧ ∀ i, Steps topo Work (run i) (run (i + 1))) ∧
    ∀ s', Relation.ReflTransGen (Steps topo Work) s s' → AtRest topo s' →
      s'.rpc = .idle ∧ s'.handler = [] ∧ ∀ dpid, s'.stream dpid = [] :=
  h.ends hwf howned

theorem work_ends_sample : ∃ s, Reachable sampleTopology (fun _ _ => True) s ∧ s.rpc ≠ .idle ∧
    s.handler ≠ [] ∧ (¬ ∃ run : ℕ → System, run 0 = s ∧
      ∀ i, Steps sampleTopology Work (run i) (run (i + 1))) := by
  let actions : List Action := [.connect 101, .connect 102, .switchFeatures 0, .handlerStep,
    .stateChange (.main 0), .stateChange (.main 1), .load "static".toList, .rpcStep,
    .stateChange (.dead 1)]
  have hrun : ((init sampleTopology).bind (follow (step sampleTopology) (fun _ _ => True)
      actions)).map (fun s => decide (s.rpc ≠ .idle ∧ s.handler ≠ [])) = some true := by
    decide +kernel
  obtain ⟨s, hreach, hs⟩ := exists_reachable hrun
  obtain ⟨hrpc, hhandler⟩ := of_decide_eq_true hs
  exact ⟨s, hreach, hrpc, hhandler,
    (work_ends sampleTopology_wellFormed sampleTopology_ownedVlans hreach).1⟩

/-! ## Loading a policy -/

def loaded (name : PolicyName) : Bool × Str :=
  (true, "Policy ".toList ++ name.str ++ " loaded".toList)

/-- How far the call is, what it has set and what it has answered. -/
def Loading (name : PolicyName) (replies : List (Bool × Str)) (s : System) : Prop :=
  match s.rpc with
  | .clearing _ _ next => next = some name ∧ s.replies = replies
  | .applying _ policy => policy = name ∧ s.curpolicy = name ∧ s.replies = replies
  | .idle => s.curpolicy = name ∧ s.replies = replies ++ [loaded name]

section

variable {name : PolicyName} {replies : List (Bool × Str)}

theorem Loading.rpcMove (h : Loading name replies s) (hphase : Phase topo tabled s)
    (hmove : RpcMove topo s s') : Loading name replies s' := by
  unfold Loading at h
  cases hmove with
  | abort hrpc hsize =>
      rcases hphase with ⟨hother, -⟩ | ⟨hrpc', hclearing⟩
      · exact absurd hrpc (hother _ _ _)
      · obtain ⟨rfl, -, -⟩ := Rpc.clearing.inj (hrpc.symm.trans hrpc')
        exact absurd hclearing.size hsize
  | cleared hrpc =>
      rw [hrpc] at h
      cases h.1
  | apply hrpc hsize hread =>
      rw [hrpc] at h
      obtain rfl := Option.some.inj h.1
      exact ⟨rfl, rfl, h.2⟩
  | skip hrpc =>
      rw [hrpc] at h
      exact h
  | clear hrpc =>
      rw [hrpc] at h
      exact h
  | applied hrpc =>
      rw [hrpc] at h
      obtain ⟨rfl, hname, hreplies⟩ := h
      exact ⟨hname, congrArg (· ++ [loaded _]) hreplies⟩
  | add hrpc =>
      rw [hrpc] at h
      exact h

theorem quiet_of_work (h : Work s a) : Quiet topo s a := by
  cases a with
  | take => trivial
  | handlerStep => trivial
  | rpcStep => trivial
  | _ => exact h.elim

theorem work_same (hwork : Work s a) (hstep : s.step topo a = some s') :
    s'.link = s.link ∧ s'.conns = s.conns := by
  cases a with
  | take dpid =>
      obtain ⟨_, _, _, -, -, rfl⟩ := take_cases hstep
      exact ⟨rfl, rfl⟩
  | handlerStep =>
      obtain ⟨_, _, _, -, rfl⟩ := handlerStep_cases hstep
      exact ⟨rfl, rfl⟩
  | rpcStep => cases rpcStep_cases hstep <;> exact ⟨rfl, rfl⟩
  | _ => exact hwork.elim

theorem Loading.work (h : Loading name replies s) (hphase : Phase topo tabled s) (hwork : Work s a)
    (hstep : s.step topo a = some s') : Loading name replies s' := by
  cases a with
  | take dpid =>
      obtain ⟨_, _, _, -, -, rfl⟩ := take_cases hstep
      exact h
  | handlerStep =>
      obtain ⟨_, _, _, -, rfl⟩ := handlerStep_cases hstep
      exact h
  | rpcStep => exact h.rpcMove hphase (rpcStep_cases hstep)
  | _ => exact hwork.elim

/-- All switches have connections whose features have been handled. -/
def Connected (topo : Topology) (s : System) : Prop :=
  ∀ dpid ∈ topo.dpids, ∃ conn ∈ s.link dpid, Featured s conn

instance : Decidable (Connected topo s) :=
  inferInstanceAs (Decidable (∀ dpid ∈ topo.dpids, ∃ conn ∈ s.link dpid, Featured s conn))

theorem Registered.load (h : Registered topo s) (hwf : topo.WellFormed) (hhandler : s.handler = [])
    (hne : name ≠ s.curpolicy) :
    Phase topo tabled (s.rpcLoadPolicy name.str) ∧
      Loading name s.replies (s.rpcLoadPolicy name.str) ∧
      s.rpcLoadPolicy name.str =
        { s with rpc := .clearing s.dps.keys.length s.dps.keys (some name) } := by
  have hname : PolicyName.ofStr name.str = some name := by cases name <;> rfl
  have hload : s.rpcLoadPolicy name.str =
      { s with rpc := .clearing s.dps.keys.length s.dps.keys (some name) } := by
    rw [rpcLoadPolicy, hname]
    exact if_neg hne
  rw [hload]
  refine ⟨.clearing rfl ⟨h, hhandler, rfl, fun sw d hdpid => Or.inl ?_⟩, ⟨rfl, rfl⟩, rfl⟩
  obtain ⟨_, -, hlookup⟩ := h.exists_conn hwf hdpid
  exact Dict.mem_of_lookup hlookup

/-- Whatever has happened before, to load another policy into a connected network that is not being
programmed makes the network do what that policy wants: the threads come to rest, the call is
answered, and all switches have the rules of the policy. -/
theorem load_delivers {ok : System → Action → Prop} (hwf : topo.WellFormed)
    (howned : topo.OwnedVlans) (h : Reachable topo ok s) (hidle : s.rpc = .idle)
    (hhandler : s.handler = []) (hregistered : Registered topo s) (hconnected : Connected topo s)
    (hne : name ≠ s.curpolicy) :
    (¬ ∃ run : ℕ → System, run 0 = s.rpcLoadPolicy name.str ∧
      ∀ i, Steps topo Work (run i) (run (i + 1))) ∧
    ∀ s', Relation.ReflTransGen (Steps topo Work) (s.rpcLoadPolicy name.str) s' → AtRest topo s' →
      Delivers topo s' ∧ s'.curpolicy = name ∧ s'.replies = s.replies ++ [loaded name] := by
  obtain ⟨tabled, huses⟩ := exists_uses hwf howned
  obtain ⟨hphase, hloading, hload⟩ : Phase topo tabled _ ∧ _ :=
    hregistered.load hwf hhandler hne
  have hstart : Steps topo (fun _ _ => True) s (s.rpcLoadPolicy name.str) := by
    refine ⟨.load name.str, trivial, ?_⟩
    rw [step, hidle]
    rfl
  have hreach := h.extend (.single hstart)
  obtain ⟨hends, hrest⟩ := hreach.ends hwf howned
  refine ⟨hends, fun s' hrun hend => ?_⟩
  have hconnected' : Connected topo (s.rpcLoadPolicy name.str) := by
    rw [hload]
    exact hconnected
  have hkeep : ∀ t t', Steps topo Work t t' →
      Valid topo t ∧ Phase topo tabled t ∧ Loading name s.replies t ∧ Connected topo t →
      Valid topo t' ∧ Phase topo tabled t' ∧ Loading name s.replies t' ∧ Connected topo t' := by
    rintro t t' ⟨a, hwork, hstep⟩ ⟨ht, hphase, hloading, hconnected⟩
    obtain ⟨hlink, hconns⟩ := work_same hwork hstep
    refine ⟨ht.step hwf huses hstep, hphase.step ht hwf huses (quiet_of_work hwork) hstep,
      hloading.work hphase hwork hstep, ?_⟩
    unfold Connected Featured
    rw [hlink, hconns]
    exact hconnected
  obtain ⟨hs', hphase', hloading', hconnected'⟩ := invariant_of_run
    (P := fun t => Valid topo t ∧ Phase topo tabled t ∧ Loading name s.replies t ∧ Connected topo t)
    hkeep hrun ⟨hreach.valid hwf howned, hphase, hloading, hconnected'⟩
  obtain ⟨hidle', hhandler', hstreams⟩ := hrest s' hrun hend
  have hsettled : Settled topo s' := by
    refine ⟨hidle', hhandler', fun dpid hdpid => ?_⟩
    obtain ⟨conn, hlink, hfeatured⟩ := hconnected' dpid hdpid
    exact ⟨conn, hlink, hfeatured, (stream_link hlink).symm.trans (hstreams dpid)⟩
  rw [Loading, hidle'] at hloading'
  exact ⟨(hphase'.kept_of_idle hidle').delivers hs' hwf huses hsettled, hloading'⟩

end

/-- All switches connect, and are cleared while the last one is being programmed. -/
def sampleHistory : List Action :=
  [.connect 101, .connect 102, .connect 103, .connect 104, .connect 105] ++
    [(0, 11), (1, 11), (2, 11), (3, 1), (4, 3)].flatMap (fun (conn, rules) =>
      .switchFeatures conn :: .stateChange (.main conn) :: List.replicate rules .handlerStep) ++
    .clear :: List.replicate 6 .rpcStep ++ List.replicate 10 .handlerStep

theorem load_delivers_sample : ∃ s, Reachable sampleTopology (fun _ _ => True) s ∧
    s.curpolicy = .default ∧
    ∀ s', Relation.ReflTransGen (Steps sampleTopology Work) (s.rpcLoadPolicy "static".toList) s' →
      AtRest sampleTopology s' → Delivers sampleTopology s' ∧ s'.curpolicy = .static := by
  have hrun : ((init sampleTopology).bind (follow (step sampleTopology) (fun _ _ => True)
      sampleHistory)).map (fun s => (s.curpolicy, decide (s.rpc = .idle ∧ s.handler = [] ∧
        Registered sampleTopology s ∧ Connected sampleTopology s))) = some (.default, true) := by
    decide +kernel
  obtain ⟨s, hreach, hs⟩ := exists_reachable hrun
  obtain ⟨hcurpolicy, hs⟩ := Prod.mk.inj hs
  obtain ⟨hidle, hhandler, hregistered, hconnected⟩ := of_decide_eq_true hs
  have hne : PolicyName.static ≠ s.curpolicy := by
    rw [hcurpolicy]
    decide
  obtain ⟨-, hrest⟩ := load_delivers sampleTopology_wellFormed sampleTopology_ownedVlans hreach hidle hhandler
    hregistered hconnected hne
  refine ⟨s, hreach, hcurpolicy, fun s' hrun hend => ?_⟩
  obtain ⟨hdelivers, hstatic, -⟩ := hrest s' hrun hend
  exact ⟨hdelivers, hstatic⟩

/-! ## Clearing the switches -/

/-- No connection opens, closes or is handled, and no other policy is loaded. -/
def Still (s : System) : Action → Prop
  | .connect _ => False
  | .disconnect _ => False
  | .stateChange _ => False
  | .switchFeatures _ => False
  | .load policy => ∀ name ∈ PolicyName.ofStr policy, name = s.curpolicy
  | _ => True

instance : (a : Action) → Decidable (Still s a)
  | .connect _ | .disconnect _ | .stateChange _ | .switchFeatures _ => .isFalse id
  | .load policy => inferInstanceAs (Decidable (∀ name ∈ PolicyName.ofStr policy, _ = _))
  | .take _ | .handlerStep | .monitor _ | .clear | .current | .rpcStep | .rehash .. =>
      .isTrue trivial

/-- The switches are being cleared or have been. -/
inductive Dark (topo : Topology) (s : System) : Prop
  | clearing {size : Nat} {todo : List Int} : s.rpc = .clearing size todo none →
      Clearing topo size todo s → Dark topo s
  | dark : s.rpc = .idle → Clearing topo s.dps.keys.length [] s → Dark topo s

theorem Clearing.of_rpc {size : Nat} {todo : List Int} {rpc : Rpc} {replies : List (Bool × Str)}
    (h : Clearing topo size todo s) : Clearing topo size todo { s with rpc, replies } :=
  ⟨h.registered, h.handler, h.size, h.cleared⟩

theorem Dark.rpcMove (h : Dark topo s) (hwf : topo.WellFormed) (hmove : RpcMove topo s s') :
    Dark topo s' := by
  rcases h with @⟨size, todo, hrpc, hclearing⟩ | ⟨hidle, -⟩
  · cases hmove with
    | abort hrpc' hsize =>
        obtain ⟨rfl, -, -⟩ := Rpc.clearing.inj (hrpc.symm.trans hrpc')
        exact absurd hclearing.size hsize
    | cleared hrpc' =>
        obtain ⟨-, rfl, -⟩ := Rpc.clearing.inj (hrpc.symm.trans hrpc')
        obtain ⟨hregistered, hhandler, -, hcleared⟩ := hclearing
        exact .dark rfl ⟨hregistered, hhandler, rfl, hcleared⟩
    | apply hrpc' =>
        obtain ⟨-, -, hnext⟩ := Rpc.clearing.inj (hrpc.symm.trans hrpc')
        cases hnext
    | skip hrpc' hlookup =>
        obtain ⟨rfl, rfl, rfl⟩ := Rpc.clearing.inj (hrpc.symm.trans hrpc')
        exact .clearing rfl (hclearing.skip hwf hlookup _)
    | clear hrpc' hlookup =>
        obtain ⟨rfl, rfl, rfl⟩ := Rpc.clearing.inj (hrpc.symm.trans hrpc')
        exact .clearing rfl (hclearing.clear hwf hlookup _)
    | applied hrpc' =>
        rw [hrpc] at hrpc'
        cases hrpc'
    | add hrpc' =>
        rw [hrpc] at hrpc'
        cases hrpc'
  · cases hmove with
    | abort hrpc => cases hidle.symm.trans hrpc
    | cleared hrpc => cases hidle.symm.trans hrpc
    | apply hrpc => cases hidle.symm.trans hrpc
    | skip hrpc => cases hidle.symm.trans hrpc
    | clear hrpc => cases hidle.symm.trans hrpc
    | applied hrpc => cases hidle.symm.trans hrpc
    | add hrpc => cases hidle.symm.trans hrpc

/-- A remote call that is not about another policy finds the switches cleared. -/
theorem Dark.clearing_of_idle (h : Dark topo s) (hidle : s.rpc = .idle) :
    Clearing topo s.dps.keys.length [] s := by
  rcases h with ⟨hrpc, -⟩ | ⟨-, hclearing⟩
  · cases hidle.symm.trans hrpc
  · exact hclearing

theorem Dark.step (h : Dark topo s) (hs : Valid topo s) (hwf : topo.WellFormed) (hstill : Still s a)
    (hstep : s.step topo a = some s') : Dark topo s' ∧ s'.curpolicy = s.curpolicy := by
  have hhandler : s.handler = [] := by
    rcases h with ⟨-, hclearing⟩ | ⟨-, hclearing⟩
    · exact hclearing.handler
    · exact hclearing.handler
  cases a with
  | connect => exact hstill.elim
  | disconnect => exact hstill.elim
  | stateChange => exact hstill.elim
  | switchFeatures => exact hstill.elim
  | take dpid =>
      have htake : s.take dpid = some s' := hstep
      rcases h with ⟨hrpc, hclearing⟩ | ⟨hrpc, hclearing⟩
      · have hclearing' := hclearing.take hs htake
        obtain ⟨_, _, _, -, -, rfl⟩ := take_cases htake
        exact ⟨.clearing hrpc hclearing', rfl⟩
      · have hclearing' := hclearing.take hs htake
        obtain ⟨_, _, _, -, -, rfl⟩ := take_cases htake
        exact ⟨.dark hrpc hclearing', rfl⟩
  | handlerStep =>
      obtain ⟨_, _, _, hbusy, -⟩ := handlerStep_cases hstep
      rw [hhandler] at hbusy
      cases hbusy
  | monitor e =>
      obtain ⟨-, hstep⟩ := Option.ite_none_right_eq_some.mp hstep
      obtain ⟨monitor, -, rfl⟩ := Option.map_eq_some_iff.mp hstep
      rcases h with ⟨hrpc, hclearing⟩ | ⟨hrpc, hclearing⟩
      · exact ⟨.clearing hrpc
          ⟨hclearing.registered, hclearing.handler, hclearing.size, hclearing.cleared⟩, rfl⟩
      · exact ⟨.dark hrpc
          ⟨hclearing.registered, hclearing.handler, hclearing.size, hclearing.cleared⟩, rfl⟩
  | load policy =>
      obtain ⟨hidle, hstep⟩ := Option.ite_none_right_eq_some.mp hstep
      rw [← Option.some.inj hstep]
      rcases rpcLoadPolicy_cases policy s with ⟨answer, heq⟩ | ⟨name, hname, hne, -⟩
      · rw [heq]
        exact ⟨.dark rfl (h.clearing_of_idle (eq_idle hidle)).of_rpc, rfl⟩
      · exact absurd (hstill name hname) hne
  | clear =>
      obtain ⟨hidle, hstep⟩ := Option.ite_none_right_eq_some.mp hstep
      rw [← Option.some.inj hstep]
      obtain ⟨hregistered, hhandler, -, hcleared⟩ := h.clearing_of_idle (eq_idle hidle)
      exact ⟨.clearing rfl ⟨hregistered, hhandler, rfl, fun sw d hdpid =>
        Or.inr ((hcleared sw d hdpid).resolve_left List.not_mem_nil)⟩, rfl⟩
  | current =>
      obtain ⟨hidle, hstep⟩ := Option.ite_none_right_eq_some.mp hstep
      rw [← Option.some.inj hstep]
      exact ⟨.dark rfl (h.clearing_of_idle (eq_idle hidle)).of_rpc, rfl⟩
  | rpcStep =>
      have hmove := rpcStep_cases hstep
      refine ⟨h.rpcMove hwf hmove, ?_⟩
      cases hmove with
      | apply hrpc =>
          rcases h with ⟨hrpc', -⟩ | ⟨hrpc', -⟩
          · obtain ⟨-, -, hnext⟩ := Rpc.clearing.inj (hrpc'.symm.trans hrpc)
            cases hnext
          · cases hrpc'.symm.trans hrpc
      | _ => rfl
  | rehash dps adaptive =>
      obtain ⟨⟨hdps, -⟩, hstep⟩ := Option.ite_none_right_eq_some.mp hstep
      rw [← Option.some.inj hstep]
      have hkeys : dps.keys.length = s.dps.keys.length := (hdps.map Sigma.fst).length_eq
      have hregistered : Registered topo s → Registered topo
          { s with dps, policies := { s.policies with adaptive } } := by
        intro h d hd
        exact ⟨(h d hd).1, (AList.perm_lookup hdps).trans (h d hd).2⟩
      rcases h with ⟨hrpc, hclearing⟩ | ⟨hrpc, hclearing⟩
      · exact ⟨.clearing hrpc ⟨hregistered hclearing.registered, hhandler,
          hkeys.trans hclearing.size, hclearing.cleared⟩, rfl⟩
      · exact ⟨.dark hrpc ⟨hregistered hclearing.registered, hhandler, rfl, hclearing.cleared⟩, rfl⟩

/-- After a clear of a network that is registered and not being programmed, no frame gets anywhere
while no connection opens, closes or is handled and no other policy is loaded; to load the current
one does not change that, it is answered that the policy is already loaded. -/
theorem dark_after_clear {ok : System → Action → Prop} (hwf : topo.WellFormed)
    (howned : topo.OwnedVlans) (h : Reachable topo ok s) (hidle : s.rpc = .idle)
    (hhandler : s.handler = []) (hregistered : Registered topo s)
    (hrun : Relation.ReflTransGen (Steps topo Still) s.rpcClear s') (hdone : s'.rpc = .idle)
    (hcarried : ∀ dpid ∈ topo.dpids, s'.stream dpid = []) :
    s'.step topo (.load s.curpolicy.str) =
      some (s'.reply (true, "Policy ".toList ++ s.curpolicy.str ++ " already loaded".toList)) ∧
    ∀ src ∈ topo.hosts.values, ∀ frame, topo.transmit (live topo s') 3 frame src = some [] := by
  obtain ⟨tabled, huses⟩ := exists_uses hwf howned
  have hstart : Steps topo (fun _ _ => True) s s.rpcClear := by
    refine ⟨.clear, trivial, ?_⟩
    rw [step, hidle]
    rfl
  have hdark : Dark topo s.rpcClear := by
    refine .clearing rfl ⟨hregistered, hhandler, rfl, fun sw d hdpid => Or.inl ?_⟩
    obtain ⟨_, -, hlookup⟩ := hregistered.exists_conn hwf hdpid
    exact Dict.mem_of_lookup hlookup
  have hkeep : ∀ t t', Steps topo Still t t' →
      Valid topo t ∧ Dark topo t ∧ t.curpolicy = s.curpolicy →
      Valid topo t' ∧ Dark topo t' ∧ t'.curpolicy = s.curpolicy := by
    rintro t t' ⟨a, hstill, hstep⟩ ⟨ht, hdark, hcurpolicy⟩
    obtain ⟨hdark', hsame⟩ := hdark.step ht hwf hstill hstep
    exact ⟨ht.step hwf huses hstep, hdark', hsame.trans hcurpolicy⟩
  obtain ⟨hs', hdark', hcurpolicy⟩ := invariant_of_run
    (P := fun t => Valid topo t ∧ Dark topo t ∧ t.curpolicy = s.curpolicy) hkeep hrun
    ⟨(h.extend (.single hstart)).valid hwf howned, hdark, rfl⟩
  have hcleared := (hdark'.clearing_of_idle hdone).cleared
  have hlive : ∀ sw, live topo s' sw = [] := by
    intro sw
    cases hdpid : topo.dpid sw with
    | none => exact live_none hdpid
    | some dpid =>
        have hsince := (hcleared sw dpid hdpid).resolve_left List.not_mem_nil
        rw [hcarried dpid (Topology.mem_dpids hwf hdpid)] at hsince
        rw [live_eq hdpid]
        exact hsince
  have hname : PolicyName.ofStr s.curpolicy.str = some s.curpolicy := by cases s.curpolicy <;> rfl
  constructor
  · rw [step, hdone, rpcLoadPolicy, hname]
    simp [hcurpolicy]
  · intro src hsrc frame
    obtain ⟨edge, he, hswitch, hmem⟩ := hwf.exists_edge hsrc
    have hport := (hwf.edge_wired he).port (Topology.WellFormed.mem_edge_nodes (Or.inr hmem))
    have hforward : topo.forward (live topo s') frame (edge.name, topo.portOf edge.name src.name) =
        [] := by
      apply Topology.forward_nil
      rw [hlive]
      rfl
    rw [Topology.transmit, ← hswitch, hport, Option.bind_some, spread, hforward]
    rfl

theorem dark_after_clear_sample : ∃ s s', Reachable sampleTopology (fun _ _ => True) s ∧
    Relation.ReflTransGen (Steps sampleTopology Still) s.rpcClear s' ∧
    s'.step sampleTopology (.load "default".toList) =
      some (s'.reply (true, "Policy default already loaded".toList)) ∧
    sampleTopology.transmit (live sampleTopology s') 3 ⟨['3'], ['1']⟩ (sampleHost '3' '1' 1) =
      some [] := by
  let actions : List Action := List.replicate 6 .rpcStep ++ .load "default".toList ::
    [(101, 13), (102, 13), (103, 13), (104, 3), (105, 15)].flatMap fun queued =>
      List.replicate queued.2 (.take queued.1)
  have hrun : ((init sampleTopology).bind (follow (step sampleTopology) (fun _ _ => True)
      sampleHistory)).map (fun s => (s.curpolicy, decide (s.rpc = .idle ∧ s.handler = [] ∧
        Registered sampleTopology s), (follow (step sampleTopology) Still actions s.rpcClear).map
          fun s' => decide (s'.rpc = .idle ∧ ∀ dpid ∈ sampleTopology.dpids, s'.stream dpid = []))) =
      some (.default, true, some true) := by decide +kernel
  obtain ⟨s, hreach, hs⟩ := exists_reachable hrun
  obtain ⟨hcurpolicy, hs, hafter⟩ := by simpa only [Prod.mk.injEq] using hs
  obtain ⟨hidle, hhandler, hregistered⟩ := of_decide_eq_true hs
  obtain ⟨s', hclear, hs'⟩ := Option.map_eq_some_iff.mp hafter
  obtain ⟨hdone, hcarried⟩ := of_decide_eq_true hs'
  have hsrc : sampleHost '3' '1' 1 ∈ sampleTopology.hosts.values := by decide
  obtain ⟨hload, hdark⟩ := dark_after_clear sampleTopology_wellFormed sampleTopology_ownedVlans hreach hidle hhandler
    hregistered (run_of_follow hclear) hdone hcarried
  rw [hcurpolicy] at hload
  exact ⟨s, s', hreach, run_of_follow hclear, hload, hdark _ hsrc _⟩

end System

end CloudComputing.Minidc
