import CloudComputing.Minidc.Interleaving

/-!
# Frames for hosts while the controller works

A policy sends a switch the rules for the hosts before those that flood.  So a
frame for a host gets to that host or to nobody at every moment, unless a remote
call clears a switch while the handler of its features is still sending to it.
-/

namespace CloudComputing.Minidc

open Lib FlowTable

namespace System

variable {topo : Topology} {s s' : System} {conn : Nat} {dpid : Int} {mod : Message}
  {entry : FlowEntry OFPMatch (List Output)}

/-! ## The order of the rules -/

/-- By the time a flooding entry is sent the rules for all hosts have been. -/
def Ready (topo : Topology) : List (FlowEntry OFPMatch (List Output)) → Flows → Prop
  | [], _ => True
  | entry :: rest, flows =>
      (entry.priority = 1 → ∀ h ∈ topo.hosts.values, Covers flows (Topology.hostKey h)) ∧
        Ready topo rest (FlowTable.add flows entry)

section

variable {flows flows' : Flows} {entries rest : List (FlowEntry OFPMatch (List Output))}

theorem Ready.mono (h : Ready topo entries flows)
    (hmore : ∀ x, Covers flows x → Covers flows' x) : Ready topo entries flows' := by
  induction entries generalizing flows flows' with
  | nil => exact trivial
  | cons entry entries ih =>
      refine ⟨fun hone host hh => hmore _ (h.1 hone host hh), ih h.2 fun x hx => ?_⟩
      exact covers_add.mpr ((covers_add.mp hx).imp_left (hmore x))

theorem ready_of_covers (h : ∀ host ∈ topo.hosts.values, Covers flows (Topology.hostKey host)) :
    Ready topo entries flows := by
  induction entries generalizing flows with
  | nil => exact trivial
  | cons entry entries ih =>
      exact ⟨fun _ => h, ih fun host hh => covers_add.mpr (Or.inl (h host hh))⟩

theorem ready_append (hentries : ∀ entry ∈ entries, entry.priority ≠ 1)
    (hrest : ∀ flows', (∀ entry ∈ entries, Covers flows' entry) → Ready topo rest flows')
    (flows : Flows) : Ready topo (entries ++ rest) flows := by
  have hgeneral : ∀ done : List (FlowEntry OFPMatch (List Output)), ∀ flows : Flows,
      (∀ entry ∈ done, Covers flows entry) →
      (∀ flows', (∀ entry ∈ done ++ entries, Covers flows' entry) → Ready topo rest flows') →
      Ready topo (entries ++ rest) flows := by
    clear hrest
    induction entries with
    | nil =>
        intro done flows hdone hrest
        exact hrest flows (by simpa using hdone)
    | cons entry entries ih =>
        intro done flows hdone hrest
        refine ⟨fun hone => absurd hone (hentries entry List.mem_cons_self), ?_⟩
        apply ih (fun e he => hentries e (List.mem_cons_of_mem _ he)) (done ++ [entry])
        · intro e he
          rcases List.mem_append.mp he with he | he
          · exact covers_add.mpr (Or.inl (hdone e he))
          · rw [List.mem_singleton.mp he]
            exact covers_add.mpr (Or.inr ⟨rfl, rfl⟩)
        · intro flows' hall
          exact hrest flows' (by simpa using hall)
  exact hgeneral [] flows (fun _ he => absurd he List.not_mem_nil) (by simpa using hrest)

/-- The rules of a switch begin with those for the hosts. -/
theorem ready_rules {tabled : List Str} {cores : Str → Host → Str} {sw : Str}
    (hwf : topo.WellFormed) (hdpid : topo.dpid sw = some dpid) (flows : Flows) :
    Ready topo ((topo.rules tabled cores sw).map Flow.entry) flows := by
  have hgeneral : ∀ (port : Host → Nat) (rest : List Flow), Ready topo
      (((topo.hosts.values.map fun h => (⟨.dst h.eth, [.port (port h)], 2⟩ : Flow)) ++ rest).map
        Flow.entry) flows := by
    intro port rest
    rw [List.map_append]
    apply ready_append
    · intro entry hentry hone
      obtain ⟨flow, hflow, rfl⟩ := List.mem_map.mp hentry
      obtain ⟨h, -, rfl⟩ := List.mem_map.mp hflow
      cases hone
    · intro flows' hall
      apply ready_of_covers
      intro host hh
      obtain ⟨e, he, hclash⟩ := hall _ (List.mem_map_of_mem (List.mem_map_of_mem hh))
      exact ⟨e, he, hclash.trans ⟨rfl, rfl⟩⟩
  rcases Topology.exists_of_dpid hwf hdpid with ⟨c, hc, rfl, -⟩ | ⟨edge, he, rfl, -⟩
  · rw [Topology.rules_core hwf hc]
    split
    case isTrue =>
      rw [Topology.coreRules, List.append_assoc]
      exact hgeneral _ _
    case isFalse => exact ⟨fun hone => absurd hone (by decide), trivial⟩
  · rw [Topology.rules_edge hwf he, Topology.edgeRules, List.append_assoc]
    exact hgeneral _ _

end

/-! ## What is guarded -/

/-- The connection that `rpcClear` comes to next. -/
def clearedNext (s : System) : Option Nat :=
  match s.rpc with
  | .clearing _ (dpid :: _) _ => s.dps.lookup dpid
  | _ => none

/-- `switchFeaturesHandler` is not in the middle of a switch that is cleared next. -/
def Orderly (s : System) : Action → Prop
  | .rpcStep => ∀ x ∈ s.handler, s.clearedNext ≠ some x.1
  | _ => True

instance : (a : Action) → Decidable (Orderly s a)
  | .rpcStep => inferInstanceAs (Decidable (∀ x ∈ s.handler, s.clearedNext ≠ some x.1))
  | .connect _ | .disconnect _ | .take _ | .stateChange _ | .switchFeatures _ | .handlerStep
  | .monitor _ | .load _ | .clear | .current | .rehash .. => .isTrue trivial

structure Guard (topo : Topology) (s : System) : Prop where
  guarded : Always topo (fun _ flows => topo.Guarded flows) s
  handler : ∀ sw dpid, topo.dpid sw = some dpid → ∀ conn, s.link dpid = some conn →
    Ready topo (pending s.handler conn) (s.settled dpid)
  rpc : ∀ sw dpid, topo.dpid sw = some dpid → ∀ conn, s.link dpid = some conn →
    Ready topo (pending s.rpc.outgoing conn) (s.settled dpid)

theorem guarded_nil : topo.Guarded [] := fun _ he => absurd he List.not_mem_nil

theorem guarded_add {flows : Flows} (h : topo.Guarded flows)
    (hready : entry.priority = 1 → ∀ host ∈ topo.hosts.values,
      Covers flows (Topology.hostKey host)) : topo.Guarded (FlowTable.add flows entry) := by
  intro x hx hone host hh
  apply covers_add.mpr
  rcases mem_add.mp hx with ⟨hx, -⟩ | rfl
  · exact Or.inl (h x hx hone host hh)
  · exact Or.inl (hready hone host hh)

/-! ## Steps -/

theorem ready_send {out : Outgoing} {c : Nat} (h : Ready topo (pending out c) (s.settled dpid)) :
    Ready topo (pending out c) ((s.send conn (.add entry)).settled dpid) := by
  rw [settled_send]
  split
  case isTrue => exact h.mono fun x hx => covers_add.mpr (Or.inl hx)
  case isFalse => exact h

theorem ready_send_head {out : Outgoing} {c : Nat} (hlink : s.link dpid = some c)
    (h : Ready topo (pending ((conn, entry) :: out) c) (s.settled dpid)) :
    Ready topo (pending out c) ((s.send conn (.add entry)).settled dpid) := by
  rw [pending_cons] at h
  rw [settled_send, hlink]
  by_cases hconn : conn = c
  · rw [if_pos hconn] at h
    rw [if_pos (congrArg some hconn.symm)]
    exact h.2
  · rw [if_neg hconn] at h
    rw [if_neg fun heq => hconn (Option.some.inj heq).symm]
    exact h

theorem guarded_send_head {out : Outgoing} (h : Always topo (fun _ flows => topo.Guarded flows) s)
    (hready : ∀ sw dpid, topo.dpid sw = some dpid → ∀ c, s.link dpid = some c →
      Ready topo (pending ((conn, entry) :: out) c) (s.settled dpid)) :
    Always topo (fun _ flows => topo.Guarded flows) (s.send conn (.add entry)) := by
  apply h.send
  intro sw dpid hdpid hlink
  have hhead := hready sw dpid hdpid conn hlink
  rw [pending_cons, if_pos rfl, settled, stream_link hlink] at hhead
  have hlast := (h sw dpid hdpid).last
  rw [stream_link hlink] at hlast
  exact guarded_add hlast hhead.1

section

variable {tabled : PolicyName → List Str} {name : PolicyName} {table : RoutingTable}

/-- A switch is ready for all that a policy has for it. -/
theorem ready_program (hwf : topo.WellFormed) (huses : Uses topo tabled)
    (hbuilds : PolicyName.Builds topo table name) {sw : Str} (hdpid : topo.dpid sw = some dpid)
    (flows : Flows) : Ready topo (((table.lookup dpid).getD []).map Flow.entry) flows := by
  obtain ⟨cores, -, hlookup⟩ := huses.exists_rules hwf hbuilds hdpid
  rw [hlookup, Option.getD_some]
  exact ready_rules hwf hdpid flows

namespace Guard

theorem connect (h : Guard topo s) (hs : Valid topo s) (dpid : Int) :
    Guard topo (s.connect dpid) := by
  have hout : ∀ out : Outgoing, Fits topo s out →
      (∀ sw d, topo.dpid sw = some d → ∀ conn, s.link d = some conn →
        Ready topo (pending out conn) (s.settled d)) →
      ∀ sw d, topo.dpid sw = some d → ∀ conn, (s.connect dpid).link d = some conn →
        Ready topo (pending out conn) ((s.connect dpid).settled d) := by
    intro out hfits hready sw d hdpid conn hlink
    by_cases hd : d = dpid
    · subst hd
      obtain rfl : s.conns.length = conn :=
        Option.some.inj ((Function.update_self d _ s.link).symm.trans hlink)
      rw [hfits.pending_new]
      exact trivial
    · have hold : (s.connect dpid).link d = s.link d := Function.update_of_ne hd _ _
      have hsame : (s.connect dpid).settled d = s.settled d := by
        rw [settled, settled, stream, stream, hold]
        rfl
      rw [hsame]
      exact hready sw d hdpid conn (hold.symm.trans hlink)
  exact ⟨h.guarded.connect (hs.fresh _ le_rfl) dpid, hout _ hs.handler h.handler,
    hout _ hs.rpc h.rpc⟩

theorem disconnect (h : Guard topo s) (dpid : Int) : Guard topo (s.disconnect dpid) := by
  have hlink : ∀ d conn, (s.disconnect dpid).link d = some conn →
      s.link d = some conn ∧ (s.disconnect dpid).settled d = s.settled d := by
    intro d conn hlink
    by_cases hd : d = dpid
    · subst hd
      have hnone : (s.disconnect d).link d = none := Function.update_self _ _ _
      rw [hnone] at hlink
      cases hlink
    · have hold : (s.disconnect dpid).link d = s.link d := Function.update_of_ne hd _ _
      refine ⟨hold.symm.trans hlink, ?_⟩
      rw [settled, settled, stream, stream, hold]
      rfl
  refine ⟨h.guarded.disconnect dpid, fun sw d hdpid conn hd => ?_, fun sw d hdpid conn hd => ?_⟩
  · rw [(hlink d conn hd).2]
    exact h.handler sw d hdpid conn (hlink d conn hd).1
  · rw [(hlink d conn hd).2]
    exact h.rpc sw d hdpid conn (hlink d conn hd).1

theorem take (h : Guard topo s) (hs : Valid topo s) (htake : s.take dpid = some s') :
    Guard topo s' := by
  have hguarded := h.guarded.take hs.linked htake
  have hsettled := settled_take hs.linked htake
  obtain ⟨_, _, _, -, -, rfl⟩ := take_cases htake
  refine ⟨hguarded, fun sw d hdpid conn hlink => ?_, fun sw d hdpid conn hlink => ?_⟩
  · rw [hsettled d]
    exact h.handler sw d hdpid conn hlink
  · rw [hsettled d]
    exact h.rpc sw d hdpid conn hlink

theorem of_rpc {rpc : Rpc} {replies : List (Bool × Str)} (h : Guard topo s)
    (hrpc : rpc.outgoing = []) : Guard topo { s with rpc, replies } := by
  refine ⟨h.guarded, h.handler, fun sw d _ conn _ => ?_⟩
  change Ready topo (pending rpc.outgoing conn) (s.settled d)
  rw [hrpc]
  exact trivial

theorem rpcMove (h : Guard topo s) (hs : Valid topo s) (hwf : topo.WellFormed)
    (huses : Uses topo tabled) (horderly : Orderly s .rpcStep) (hmove : RpcMove topo s s') :
    Guard topo s' := by
  cases hmove with
  | abort => exact h.of_rpc rfl
  | cleared => exact h.of_rpc rfl
  | applied => exact h.of_rpc rfl
  | skip => exact h.of_rpc rfl
  | apply hrpc hsize hread =>
      rename_i policy policies table
      obtain ⟨policies', table', hread', -, hbuilds⟩ :=
        hs.policies.exists_routingTable hwf s.monitor.bwstats.hostBw policy
      rw [hread] at hread'
      obtain ⟨rfl, rfl⟩ := Prod.mk.inj (Option.some.inj hread')
      refine ⟨h.guarded, h.handler, fun sw d hdpid conn hlink => ?_⟩
      change Ready topo (pending (s.dps.entries.flatMap fun dp => program table dp.1 dp.2) conn)
        (s.settled d)
      rw [pending_apply hs.dps table (hs.linked d conn hlink)]
      split
      case isTrue => exact ready_program hwf huses hbuilds hdpid _
      case isFalse => exact trivial
  | clear hrpc hlookup =>
      rename_i size dpid todo next conn
      refine ⟨h.guarded.send fun _ _ _ _ => guarded_nil, fun sw d hdpid c hlink => ?_,
        fun _ _ _ _ _ => trivial⟩
      change Ready topo (pending s.handler c) ((s.send conn .clear).settled d)
      rw [settled_send]
      split
      case isTrue hlinked =>
        obtain rfl := Option.some.inj (hlinked.symm.trans hlink)
        have hnone : pending s.handler conn = [] := by
          rw [pending, List.map_eq_nil_iff, List.filter_eq_nil_iff]
          intro x hx hconn
          apply horderly x hx
          rw [clearedNext, hrpc, of_decide_eq_true hconn]
          exact hlookup
        rw [hnone]
        exact trivial
      case isFalse => exact h.handler sw d hdpid c hlink
  | add hrpc =>
      have hready := h.rpc
      rw [hrpc] at hready
      exact ⟨guarded_send_head h.guarded hready,
        fun sw d hdpid c hlink => ready_send (h.handler sw d hdpid c hlink),
        fun sw d hdpid c hlink => ready_send_head hlink (hready sw d hdpid c hlink)⟩

theorem step {a : Action} (h : Guard topo s) (hs : Valid topo s) (hwf : topo.WellFormed)
    (huses : Uses topo tabled) (horderly : Orderly s a) (hstep : s.step topo a = some s') :
    Guard topo s' := by
  cases a with
  | connect dpid =>
      rw [← Option.some.inj hstep]
      exact h.connect hs dpid
  | disconnect dpid =>
      rw [← Option.some.inj hstep]
      exact h.disconnect dpid
  | take dpid => exact h.take hs hstep
  | stateChange e =>
      obtain ⟨_, _, _, -, -, -, rfl, -⟩ := stateChange_cases hstep
      exact ⟨h.guarded, h.handler, h.rpc⟩
  | switchFeatures conn =>
      obtain ⟨datapath, policies, table, hdatapath, hread, -, -, rfl⟩ := switchFeatures_cases hstep
      obtain ⟨policies', table', hread', -, hbuilds⟩ :=
        hs.policies.exists_routingTable hwf s.monitor.bwstats.hostBw s.curpolicy
      rw [hread] at hread'
      obtain ⟨rfl, rfl⟩ := Prod.mk.inj (Option.some.inj hread')
      refine ⟨h.guarded, fun sw d hdpid c hlink => ?_, h.rpc⟩
      change Ready topo (pending (program table datapath.dpid conn) c) (s.settled d)
      rw [pending_program]
      split
      case isTrue hconn =>
        have hd := hs.linked d c hlink
        rw [← hconn, dpidOf, hdatapath, Option.map_some] at hd
        rw [Option.some.inj hd]
        exact ready_program hwf huses hbuilds hdpid _
      case isFalse => exact trivial
  | handlerStep =>
      obtain ⟨conn, entry, rest, hhandler, rfl⟩ := handlerStep_cases hstep
      have hready := h.handler
      rw [hhandler] at hready
      exact ⟨guarded_send_head h.guarded hready,
        fun sw d hdpid c hlink => ready_send_head hlink (hready sw d hdpid c hlink),
        fun sw d hdpid c hlink => ready_send (h.rpc sw d hdpid c hlink)⟩
  | monitor e =>
      obtain ⟨-, hstep⟩ := Option.ite_none_right_eq_some.mp hstep
      obtain ⟨monitor, -, rfl⟩ := Option.map_eq_some_iff.mp hstep
      exact ⟨h.guarded, h.handler, h.rpc⟩
  | load policy =>
      obtain ⟨-, hstep⟩ := Option.ite_none_right_eq_some.mp hstep
      rw [← Option.some.inj hstep]
      rcases rpcLoadPolicy_cases policy s with ⟨answer, heq⟩ | ⟨name, -, -, heq⟩
      · rw [heq]
        exact h.of_rpc rfl
      · rw [heq]
        exact h.of_rpc rfl
  | clear =>
      obtain ⟨-, hstep⟩ := Option.ite_none_right_eq_some.mp hstep
      rw [← Option.some.inj hstep]
      exact h.of_rpc rfl
  | current =>
      obtain ⟨-, hstep⟩ := Option.ite_none_right_eq_some.mp hstep
      rw [← Option.some.inj hstep]
      exact h.of_rpc rfl
  | rpcStep => exact h.rpcMove hs hwf huses horderly (rpcStep_cases hstep)
  | rehash dps adaptive =>
      obtain ⟨-, hstep⟩ := Option.ite_none_right_eq_some.mp hstep
      rw [← Option.some.inj hstep]
      exact ⟨h.guarded, h.handler, h.rpc⟩

end Guard

end

/-! ## Runs -/

theorem guard_init (hinit : init topo = some s) : Guard topo s := by
  obtain ⟨policies, -, hinit⟩ := Option.bind_eq_some_iff.mp hinit
  rw [← Option.some.inj hinit]
  exact ⟨fun _ _ _ => guarded_nil, fun _ _ _ _ _ => trivial, fun _ _ _ _ _ => trivial⟩

theorem Reachable.guard (h : Reachable topo Orderly s) (hwf : topo.WellFormed)
    (howned : topo.OwnedVlans) : Valid topo s ∧ Guard topo s := by
  obtain ⟨s₀, hinit, hrun⟩ := h
  obtain ⟨tabled, huses⟩ := exists_uses hwf howned
  have hkeep : ∀ s s', Steps topo Orderly s s' → Valid topo s ∧ Guard topo s →
      Valid topo s' ∧ Guard topo s' := by
    rintro s s' ⟨a, horderly, hstep⟩ hs
    exact ⟨hs.1.step hwf huses hstep, hs.2.step hs.1 hwf huses horderly hstep⟩
  exact invariant_of_run (P := fun s => Valid topo s ∧ Guard topo s) hkeep hrun
    ⟨valid_init hwf howned hinit, guard_init hinit⟩

/-- While connections come and go, policies are loaded and switches work off their queues at their
own pace, a frame for a host gets to that host alone or to nobody. -/
theorem unicast_safe (hwf : topo.WellFormed) (howned : topo.OwnedVlans)
    (h : Reachable topo Orderly s) {src dst : Host} (hsrc : src ∈ topo.hosts.values)
    (hdst : dst ∈ topo.hosts.values) (hne : src ≠ dst) {frame : Frame}
    (hframe : frame.ethDst = dst.eth) : topo.transmit (live topo s) 3 frame src = some [] ∨
      topo.transmit (live topo s) 3 frame src = some [dst.name] := by
  obtain ⟨hvalid, hguard⟩ := h.guard hwf howned
  obtain ⟨cores, hpart⟩ := hvalid.exists_part hwf
  apply hpart.unicast hwf (fun n hn => hn) _ hsrc hdst hne hframe
  intro sw
  cases hdpid : topo.dpid sw with
  | none =>
      rw [live_none hdpid]
      exact guarded_nil
  | some dpid =>
      rw [live_eq hdpid]
      exact (hguard.guarded sw dpid hdpid).here

theorem unicast_safe_sample : ∃ s, Reachable sampleTopology Orderly s ∧
    (s.table 101).length = 2 ∧
    (sampleTopology.transmit (live sampleTopology s) 3 ⟨['3'], ['1']⟩ (sampleHost '3' '1' 1) =
        some [] ∨
      sampleTopology.transmit (live sampleTopology s) 3 ⟨['3'], ['1']⟩ (sampleHost '3' '1' 1) =
        some [['h', '1']]) := by
  let actions : List Action := [.connect 101, .connect 102, .switchFeatures 0, .handlerStep,
    .handlerStep, .take 101, .stateChange (.main 1), .load "static".toList, .rpcStep, .rpcStep,
    .handlerStep, .rpcStep, .take 101, .take 102, .take 102, .disconnect 101]
  have hrun : ((init sampleTopology).bind (follow (step sampleTopology) Orderly actions)).map
      (fun s => (s.table 101).length) = some 2 := by decide +kernel
  obtain ⟨s, hreach, htable⟩ := exists_reachable hrun
  have hsrc : sampleHost '3' '1' 1 ∈ sampleTopology.hosts.values := by decide
  have hdst : sampleHost '1' '2' 0 ∈ sampleTopology.hosts.values := by decide
  exact ⟨s, hreach, htable, unicast_safe sampleTopology_wellFormed sampleTopology_ownedVlans hreach hsrc hdst
    (by decide) rfl⟩

end System

end CloudComputing.Minidc
