import CloudComputing.Minidc.Interleaving

/-!
# The network once everything is carried out

As long as nobody interferes with a policy while it is being loaded, the tables of
the switches are those of the current policy as soon as the switches have carried
out what has been sent to them, however the threads took turns before.
-/

namespace CloudComputing.Minidc

open Lib FlowTable

namespace System

variable {topo : Topology} {tabled : PolicyName → List Str} {s s' : System} {conn : Nat}
  {dpid : Int} {entry : FlowEntry OFPMatch (List Output)}

/-- All switches are registered by the connections that they have. -/
def Registered (topo : Topology) (s : System) : Prop :=
  ∀ dpid ∈ topo.dpids, s.link dpid ≠ none ∧ s.dps.lookup dpid = s.link dpid

instance : Decidable (Registered topo s) :=
  inferInstanceAs (Decidable (∀ dpid ∈ topo.dpids, _ ∧ _))

/-- A policy is loaded when all switches are registered and nothing is being sent, and nothing
happens to the connections until it is; nor does a switch lose a `clear`. -/
def Quiet (topo : Topology) (s : System) : Action → Prop
  | .connect dpid => s.rpc = .idle ∧ .clear ∉ s.stream dpid
  | .disconnect dpid => s.rpc = .idle ∧ .clear ∉ s.stream dpid
  | .stateChange _ => s.rpc = .idle
  | .switchFeatures _ => s.rpc = .idle
  | .load policy => ∀ name ∈ PolicyName.ofStr policy, name ≠ s.curpolicy →
      s.handler = [] ∧ Registered topo s
  | .clear => False
  | _ => True

instance : (a : Action) → Decidable (Quiet topo s a)
  | .connect _ | .disconnect _ => inferInstanceAs (Decidable (_ ∧ _ ∉ _))
  | .stateChange _ | .switchFeatures _ => inferInstanceAs (Decidable (_ = _))
  | .load policy => inferInstanceAs (Decidable (∀ name ∈ PolicyName.ofStr policy,
      name ≠ s.curpolicy → _ ∧ Registered topo s))
  | .clear => .isFalse id
  | .take _ | .handlerStep | .monitor _ | .current | .rpcStep | .rehash .. => .isTrue trivial

def Featured (s : System) (conn : Nat) : Prop :=
  (s.conns[conn]?).map Connection.featured = some true

instance : Decidable (Featured s conn) :=
  inferInstanceAs (Decidable (_ = some true))

/-- All switches have been programmed and have carried out everything. -/
def Settled (topo : Topology) (s : System) : Prop :=
  s.rpc = .idle ∧ s.handler = [] ∧
    ∀ dpid ∈ topo.dpids, ∃ conn ∈ s.link dpid, Featured s conn ∧ s.queue conn = []

instance : Decidable (Settled topo s) :=
  inferInstanceAs (Decidable (s.rpc = .idle ∧ s.handler = [] ∧
    ∀ dpid ∈ topo.dpids, ∃ conn ∈ s.link dpid, Featured s conn ∧ s.queue conn = []))

theorem Registered.exists_conn {sw : Str} (h : Registered topo s) (hwf : topo.WellFormed)
    (hdpid : topo.dpid sw = some dpid) :
    ∃ conn, s.link dpid = some conn ∧ s.dps.lookup dpid = some conn := by
  obtain ⟨hlink, hlookup⟩ := h dpid (Topology.mem_dpids hwf hdpid)
  obtain ⟨conn, hconn⟩ := Option.ne_none_iff_exists'.mp hlink
  exact ⟨conn, hconn, hlookup.trans hconn⟩

/-! ## What is kept -/

def due (s : System) (conn : Nat) : List (FlowEntry OFPMatch (List Output)) :=
  pending s.handler conn ++ pending s.rpc.outgoing conn

/-- The switches have or get the rules of the current policy and no others. -/
structure Kept (topo : Topology) (tabled : PolicyName → List Str) (s : System) : Prop where
  made : ∀ sw dpid, topo.dpid sw = some dpid →
    Since (fun flows => ∀ e ∈ flows, topo.Makes (tabled s.curpolicy) sw e) (s.stream dpid)
      (s.table dpid)
  due : ∀ sw dpid conn, topo.dpid sw = some dpid → s.link dpid = some conn →
    ∀ e ∈ s.due conn, topo.Makes (tabled s.curpolicy) sw e
  complete : ∀ sw dpid conn, topo.dpid sw = some dpid → s.link dpid = some conn →
    Featured s conn → topo.Complete (tabled s.curpolicy) sw (s.settled dpid ++ s.due conn)

/-- The switches that have been cleared have nothing. -/
structure Clearing (topo : Topology) (size : Nat) (todo : List Int) (s : System) : Prop where
  registered : Registered topo s
  handler : s.handler = []
  size : s.dps.keys.length = size
  cleared : ∀ sw dpid, topo.dpid sw = some dpid →
    dpid ∈ todo ∨ Since (· = []) (s.stream dpid) (s.table dpid)

inductive Phase (topo : Topology) (tabled : PolicyName → List Str) (s : System) : Prop
  | kept : (∀ size todo next, s.rpc ≠ .clearing size todo next) → Kept topo tabled s →
      Phase topo tabled s
  | clearing {size : Nat} {todo : List Int} {policy : PolicyName} :
      s.rpc = .clearing size todo (some policy) → Clearing topo size todo s → Phase topo tabled s

theorem covers_append {flows flows' : Flows} {x : FlowEntry OFPMatch (List Output)} :
    Covers (flows ++ flows') x ↔ Covers flows x ∨ Covers flows' x := by
  simp only [Covers, List.mem_append, or_and_right, exists_or]

theorem featured_connect (hlinked : s.dpidOf conn = some dpid) {d : Int}
    (h : Featured (s.connect d) conn) : Featured s conn := by
  obtain ⟨datapath, hdatapath, -⟩ := Option.map_eq_some_iff.mp hlinked
  have hlt := (List.getElem?_eq_some_iff.mp hdatapath).1
  rwa [Featured, connect, List.getElem?_append_left hlt] at h

theorem not_featured_new (s : System) (dpid : Int) :
    ¬ Featured (s.connect dpid) s.conns.length := by
  rw [Featured, connect, List.getElem?_append_right le_rfl, Nat.sub_self]
  simp

namespace Kept

theorem connect (h : Kept topo tabled s) (hs : Valid topo s) (hclear : .clear ∉ s.stream dpid) :
    Kept topo tabled (s.connect dpid) where
  made := by
    intro sw d hdpid
    rw [stream_connect (hs.fresh _ le_rfl)]
    split
    case isTrue hd =>
      subst hd
      exact (h.made sw d hdpid).here hclear
    case isFalse => exact h.made sw d hdpid
  due := by
    intro sw d conn hdpid hlink e he
    rw [link_connect] at hlink
    split at hlink
    case isTrue =>
      obtain rfl := Option.some.inj hlink
      change e ∈ pending s.handler s.conns.length ++ pending s.rpc.outgoing s.conns.length at he
      rw [hs.handler.pending_new, hs.rpc.pending_new] at he
      cases he
    case isFalse => exact h.due sw d conn hdpid hlink e he
  complete := by
    intro sw d conn hdpid hlink hfeatured
    rw [link_connect] at hlink
    split at hlink
    case isTrue =>
      obtain rfl := Option.some.inj hlink
      exact absurd hfeatured (not_featured_new s dpid)
    case isFalse hd =>
      have hsame : (s.connect dpid).settled d = s.settled d := by
        rw [settled, settled, stream_connect (hs.fresh _ le_rfl), if_neg hd]
        rfl
      rw [hsame]
      exact h.complete sw d conn hdpid hlink (featured_connect (hs.linked d conn hlink) hfeatured)

theorem disconnect (h : Kept topo tabled s) (hclear : .clear ∉ s.stream dpid) :
    Kept topo tabled (s.disconnect dpid) where
  made := by
    intro sw d hdpid
    rw [stream_disconnect]
    split
    case isTrue hd =>
      subst hd
      exact (h.made sw d hdpid).here hclear
    case isFalse => exact h.made sw d hdpid
  due := by
    intro sw d conn hdpid hlink
    rw [link_disconnect] at hlink
    split at hlink
    case isTrue => cases hlink
    case isFalse => exact h.due sw d conn hdpid hlink
  complete := by
    intro sw d conn hdpid hlink hfeatured
    rw [link_disconnect] at hlink
    split at hlink
    case isTrue => cases hlink
    case isFalse hd =>
      have hsame : (s.disconnect dpid).settled d = s.settled d := by
        rw [settled, settled, stream_disconnect, if_neg hd]
        rfl
      rw [hsame]
      exact h.complete sw d conn hdpid hlink hfeatured

theorem take (h : Kept topo tabled s) (hs : Valid topo s) (htake : s.take dpid = some s') :
    Kept topo tabled s' := by
  have hmade : ∀ (sw : Str) (d : Int), topo.dpid sw = some d →
      Since (fun flows => ∀ e ∈ flows, topo.Makes (tabled s.curpolicy) sw e) (s'.stream d)
        (s'.table d) :=
    fun sw d hdpid => keep_take htake hs.linked (fun _ _ _ hmods => hmods.2) (h.made sw d hdpid)
  have hsettled := settled_take hs.linked htake
  obtain ⟨_, _, _, -, -, rfl⟩ := take_cases htake
  refine ⟨hmade, h.due, fun sw d conn hdpid hlink hfeatured => ?_⟩
  rw [hsettled d]
  exact h.complete sw d conn hdpid hlink hfeatured

theorem of_rpc {rpc : Rpc} {replies : List (Bool × Str)} (h : Kept topo tabled s)
    (hrpc : rpc.outgoing = s.rpc.outgoing) : Kept topo tabled { s with rpc, replies } := by
  have hdue : ∀ c, System.due { s with rpc, replies } c = s.due c :=
    fun c => congrArg (fun out => pending s.handler c ++ pending out c) hrpc
  refine ⟨h.made, fun sw d c hdpid hlink e he => ?_, fun sw d c hdpid hlink hfeatured => ?_⟩
  · rw [hdue c] at he
    exact h.due sw d c hdpid hlink e he
  · rw [hdue c]
    exact h.complete sw d c hdpid hlink hfeatured

theorem emit {handler : Outgoing} {rpc : Rpc} (h : Kept topo tabled s)
    (hdue : ∀ c x, x ∈ s.due c ↔
      (c = conn ∧ x = entry) ∨ x ∈ pending handler c ++ pending rpc.outgoing c) :
    Kept topo tabled (System.send conn (.add entry) { s with handler, rpc }) where
  made := by
    intro sw d hdpid
    change Since _ ((s.send conn (.add entry)).stream d) (s.table d)
    rw [stream_send]
    split
    case isTrue hlink =>
      apply (h.made sw d hdpid).add
      intro e he
      rcases mem_add.mp he with ⟨he, -⟩ | rfl
      · exact (h.made sw d hdpid).last e he
      · exact h.due sw d conn hdpid hlink e ((hdue conn e).mpr (Or.inl ⟨rfl, rfl⟩))
    case isFalse => exact h.made sw d hdpid
  due := by
    intro sw d c hdpid hlink e he
    exact h.due sw d c hdpid hlink e ((hdue c e).mpr (Or.inr he))
  complete := by
    intro sw d c hdpid hlink hfeatured flow hflow
    have hcovered := h.complete sw d c hdpid hlink hfeatured flow hflow
    change Covers ((s.send conn (.add entry)).settled d ++
      (pending handler c ++ pending rpc.outgoing c)) flow.entry
    change s.link d = some c at hlink
    rw [settled_send, hlink]
    rw [covers_append] at hcovered ⊢
    by_cases hc : c = conn
    · rw [if_pos (congrArg some hc)]
      change Covers (FlowTable.add (s.settled d) entry) flow.entry ∨ _
      rw [covers_add]
      rcases hcovered with hsettled | ⟨e, he, hclash⟩
      · exact Or.inl (Or.inl hsettled)
      · rcases (hdue c e).mp he with ⟨-, rfl⟩ | he
        · exact Or.inl (Or.inr hclash)
        · exact Or.inr ⟨e, he, hclash⟩
    · rw [if_neg fun heq => hc (Option.some.inj heq)]
      refine hcovered.imp_right fun ⟨e, he, hclash⟩ => ⟨e, ?_, hclash⟩
      exact ((hdue c e).mp he).resolve_left fun heq => hc heq.1

theorem switchFeatures (h : Kept topo tabled s) (hs : Valid topo s) (hwf : topo.WellFormed)
    (huses : Uses topo tabled) (hidle : s.rpc = .idle)
    (hstep : s.switchFeatures topo conn = some s') : Kept topo tabled s' := by
  obtain ⟨datapath, policies, table, hdatapath, hread, hhandler, -, rfl⟩ :=
    switchFeatures_cases hstep
  obtain ⟨policies', table', hread', -, hbuilds⟩ :=
    hs.policies.exists_routingTable hwf s.monitor.bwstats.hostBw s.curpolicy
  rw [hread] at hread'
  obtain ⟨rfl, rfl⟩ := Prod.mk.inj (Option.some.inj hread')
  have hdue : ∀ d c, s.link d = some c →
      pending (program table datapath.dpid conn) c ++ pending s.rpc.outgoing c =
        if conn = c then ((table.lookup d).getD []).map Flow.entry else [] := by
    intro d c hlink
    rw [pending_program, hidle]
    split
    case isTrue hconn =>
      have hd := hs.linked d c hlink
      rw [← hconn, dpidOf, hdatapath, Option.map_some] at hd
      rw [Option.some.inj hd]
      exact List.append_nil _
    case isFalse => rfl
  refine ⟨h.made, fun sw d c hdpid hlink e he => ?_, fun sw d c hdpid hlink hfeatured => ?_⟩
  · change e ∈ pending (program table datapath.dpid conn) c ++ pending s.rpc.outgoing c at he
    rw [hdue d c hlink] at he
    split at he
    case isTrue => exact (huses.programs hwf hbuilds hdpid).1 e he
    case isFalse => cases he
  · change topo.Complete (tabled s.curpolicy) sw (s.settled d ++
      (pending (program table datapath.dpid conn) c ++ pending s.rpc.outgoing c))
    rw [hdue d c hlink]
    intro flow hflow
    rw [covers_append]
    split
    case isTrue => exact Or.inr ((huses.programs hwf hbuilds hdpid).2 flow hflow)
    case isFalse hne =>
      have hbefore : Featured s c := by
        rw [Featured] at hfeatured ⊢
        rwa [List.getElem?_set_ne hne] at hfeatured
      have hcovered := h.complete sw d c hdpid hlink hbefore flow hflow
      rw [System.due, hhandler, hidle] at hcovered
      exact covers_append.mp hcovered

end Kept

namespace Clearing

variable {size : Nat} {todo : List Int}

theorem take (h : Clearing topo size todo s) (hs : Valid topo s) (htake : s.take dpid = some s') :
    Clearing topo size todo s' := by
  have hcleared : ∀ (sw : Str) (d : Int), topo.dpid sw = some d →
      d ∈ todo ∨ Since (· = []) (s'.stream d) (s'.table d) := by
    intro sw d hdpid
    refine (h.cleared sw d hdpid).imp_right fun hsince => ?_
    exact keep_take htake hs.linked (fun _ _ _ hmods => hmods.2) hsince
  obtain ⟨_, _, _, -, -, rfl⟩ := take_cases htake
  exact ⟨h.registered, h.handler, h.size, hcleared⟩

theorem clear (h : Clearing topo size (dpid :: todo) s) (hwf : topo.WellFormed)
    (hlookup : s.dps.lookup dpid = some conn)
    (rpc : Rpc) : Clearing topo size todo (System.send conn .clear { s with rpc }) := by
  refine ⟨h.registered, h.handler, h.size, fun sw d hdpid => ?_⟩
  change d ∈ todo ∨ Since (· = []) ((s.send conn .clear).stream d) (s.table d)
  rw [stream_send]
  split
  case isTrue => exact Or.inr (since_clear _ rfl)
  case isFalse hlink =>
    refine (h.cleared sw d hdpid).imp_left fun hd => ?_
    refine (List.mem_cons.mp hd).resolve_left ?_
    rintro rfl
    obtain ⟨c, hlinked, hregistered⟩ := h.registered.exists_conn hwf hdpid
    rw [hlookup] at hregistered
    obtain rfl := Option.some.inj hregistered
    exact hlink hlinked

theorem skip (h : Clearing topo size (dpid :: todo) s) (hwf : topo.WellFormed)
    (hlookup : s.dps.lookup dpid = none)
    (rpc : Rpc) : Clearing topo size todo { s with rpc } := by
  refine ⟨h.registered, h.handler, h.size, fun sw d hdpid => ?_⟩
  refine (h.cleared sw d hdpid).imp_left fun hd => ?_
  refine (List.mem_cons.mp hd).resolve_left ?_
  rintro rfl
  obtain ⟨c, -, hregistered⟩ := h.registered.exists_conn hwf hdpid
  rw [hlookup] at hregistered
  cases hregistered

theorem apply {policies : Policies} {table : RoutingTable} {policy : PolicyName}
    (h : Clearing topo size [] s) (hs : Valid topo s) (hwf : topo.WellFormed)
    (huses : Uses topo tabled) (hbuilds : PolicyName.Builds topo table policy) :
    Kept topo tabled { s with
      policies
      curpolicy := policy
      rpc := .applying (s.dps.entries.flatMap fun dp => program table dp.1 dp.2) policy } := by
  have hdue : ∀ sw d c, topo.dpid sw = some d → s.link d = some c → pending s.handler c ++
      pending (s.dps.entries.flatMap fun dp => program table dp.1 dp.2) c =
        ((table.lookup d).getD []).map Flow.entry := by
    intro sw d c hdpid hlink
    obtain ⟨c', hlink', hlookup⟩ := h.registered.exists_conn hwf hdpid
    obtain rfl := Option.some.inj (hlink'.symm.trans hlink)
    rw [h.handler, pending_apply hs.dps table (hs.linked d c' hlink'), if_pos hlookup]
    rfl
  refine ⟨fun sw d hdpid => ?_, fun sw d c hdpid hlink e he => ?_,
    fun sw d c hdpid hlink _ flow hflow => ?_⟩
  · have hempty := (h.cleared sw d hdpid).resolve_left List.not_mem_nil
    apply hempty.mono
    rintro flows rfl e he
    cases he
  · change e ∈ pending s.handler c ++
      pending (s.dps.entries.flatMap fun dp => program table dp.1 dp.2) c at he
    rw [hdue sw d c hdpid hlink] at he
    exact (huses.programs hwf hbuilds hdpid).1 e he
  · change Covers (s.settled d ++ (pending s.handler c ++
      pending (s.dps.entries.flatMap fun dp => program table dp.1 dp.2) c)) flow.entry
    rw [covers_append, hdue sw d c hdpid hlink]
    exact Or.inr ((huses.programs hwf hbuilds hdpid).2 flow hflow)

end Clearing

theorem eq_idle {rpc : Rpc} (h : (rpc matches .idle) = true) : rpc = .idle := by
  cases rpc with
  | idle => rfl
  | _ => cases h

namespace Phase

variable {name : PolicyName}

theorem rpcMove (h : Phase topo tabled s) (hs : Valid topo s) (hwf : topo.WellFormed)
    (huses : Uses topo tabled) (hmove : RpcMove topo s s') : Phase topo tabled s' := by
  rcases h with ⟨hrpc, hkept⟩ | @⟨size, todo, policy, hrpc, hclearing⟩
  · cases hmove with
    | abort hrpc' => exact absurd hrpc' (hrpc _ _ _)
    | cleared hrpc' => exact absurd hrpc' (hrpc _ _ _)
    | apply hrpc' => exact absurd hrpc' (hrpc _ _ _)
    | skip hrpc' => exact absurd hrpc' (hrpc _ _ _)
    | clear hrpc' => exact absurd hrpc' (hrpc _ _ _)
    | applied hrpc' => exact .kept (fun _ _ _ => nofun) (hkept.of_rpc (by rw [hrpc']; rfl))
    | add hrpc' =>
        rename_i c entry todo policy
        refine .kept (fun _ _ _ => nofun) (hkept.emit fun c' x => ?_)
        rw [System.due, hrpc', List.mem_append, List.mem_append]
        change _ ∨ x ∈ pending ((c, entry) :: todo) c' ↔ _ ∨ _ ∨ x ∈ pending todo c'
        rw [pending_cons]
        split
        case isTrue hc =>
          rw [List.mem_cons]
          subst hc
          tauto
        case isFalse hc =>
          have hne : ¬ c' = c := fun heq => hc heq.symm
          tauto
  · cases hmove with
    | abort hrpc' hsize =>
        obtain ⟨rfl, -, -⟩ := Rpc.clearing.inj (hrpc.symm.trans hrpc')
        exact absurd hclearing.size hsize
    | cleared hrpc' =>
        obtain ⟨-, -, hnext⟩ := Rpc.clearing.inj (hrpc.symm.trans hrpc')
        cases hnext
    | apply hrpc' hsize hread =>
        rename_i size' policy' policies table
        obtain ⟨-, rfl, hnext⟩ := Rpc.clearing.inj (hrpc.symm.trans hrpc')
        obtain ⟨policies', table', hread', -, hbuilds⟩ :=
          hs.policies.exists_routingTable hwf s.monitor.bwstats.hostBw policy'
        rw [hread] at hread'
        obtain ⟨rfl, rfl⟩ := Prod.mk.inj (Option.some.inj hread')
        exact .kept (fun _ _ _ => nofun) (hclearing.apply hs hwf huses hbuilds)
    | skip hrpc' hlookup =>
        obtain ⟨rfl, rfl, rfl⟩ := Rpc.clearing.inj (hrpc.symm.trans hrpc')
        exact .clearing rfl (hclearing.skip hwf hlookup _)
    | clear hrpc' hlookup =>
        obtain ⟨rfl, rfl, rfl⟩ := Rpc.clearing.inj (hrpc.symm.trans hrpc')
        exact .clearing rfl (hclearing.clear hwf hlookup _)
    | applied hrpc' =>
        rw [hrpc] at hrpc'
        cases hrpc'
    | add hrpc' =>
        rw [hrpc] at hrpc'
        cases hrpc'

/-- Without a remote call going on the rules are kept. -/
theorem kept_of_idle (h : Phase topo tabled s) (hidle : s.rpc = .idle) : Kept topo tabled s := by
  rcases h with ⟨-, hkept⟩ | ⟨hrpc, -⟩
  · exact hkept
  · rw [hidle] at hrpc
    cases hrpc

theorem of_idle (h : Kept topo tabled s) (hidle : s.rpc = .idle) : Phase topo tabled s := by
  refine .kept (fun _ _ _ hrpc => ?_) h
  rw [hidle] at hrpc
  cases hrpc

theorem step {a : Action} (h : Phase topo tabled s) (hs : Valid topo s) (hwf : topo.WellFormed)
    (huses : Uses topo tabled) (hquiet : Quiet topo s a) (hstep : s.step topo a = some s') :
    Phase topo tabled s' := by
  cases a with
  | connect dpid =>
      rw [← Option.some.inj hstep]
      exact of_idle ((h.kept_of_idle hquiet.1).connect hs hquiet.2) hquiet.1
  | disconnect dpid =>
      rw [← Option.some.inj hstep]
      exact of_idle ((h.kept_of_idle hquiet.1).disconnect hquiet.2) hquiet.1
  | take dpid =>
      have htake : s.take dpid = some s' := hstep
      rcases h with ⟨hrpc, hkept⟩ | ⟨hrpc, hclearing⟩
      · have hkept' := hkept.take hs htake
        obtain ⟨_, _, _, -, -, rfl⟩ := take_cases htake
        exact .kept hrpc hkept'
      · have hclearing' := hclearing.take hs htake
        obtain ⟨_, _, _, -, -, rfl⟩ := take_cases htake
        exact .clearing hrpc hclearing'
  | stateChange e =>
      have hkept := h.kept_of_idle hquiet
      obtain ⟨datapath, datapath', dps, hdatapath, -, hfeatured, rfl, -⟩ := stateChange_cases hstep
      refine of_idle ⟨hkept.made, hkept.due, fun sw d c hdpid hlink hc => ?_⟩ hquiet
      apply hkept.complete sw d c hdpid hlink
      change ((s.conns.set e.conn datapath')[c]?).map Connection.featured = some true at hc
      rw [List.getElem?_set] at hc
      split at hc
      case isTrue heq =>
        subst heq
        rw [if_pos (List.getElem?_eq_some_iff.mp hdatapath).1, Option.map_some, hfeatured] at hc
        rw [Featured, hdatapath, Option.map_some, hc]
      case isFalse => exact hc
  | switchFeatures conn =>
      have hkept := (h.kept_of_idle hquiet).switchFeatures hs hwf huses hquiet hstep
      obtain ⟨_, _, _, -, -, -, -, rfl⟩ := switchFeatures_cases hstep
      exact of_idle hkept hquiet
  | handlerStep =>
      obtain ⟨conn, entry, rest, hhandler, rfl⟩ := handlerStep_cases hstep
      rcases h with ⟨hrpc, hkept⟩ | ⟨-, hclearing⟩
      · refine .kept hrpc (hkept.emit fun c x => ?_)
        rw [System.due, hhandler, List.mem_append, List.mem_append, pending_cons]
        split
        case isTrue hc =>
          rw [List.mem_cons]
          subst hc
          tauto
        case isFalse hc =>
          have hne : ¬ c = conn := fun heq => hc heq.symm
          tauto
      · rw [hclearing.handler] at hhandler
        cases hhandler
  | monitor e =>
      obtain ⟨-, hstep⟩ := Option.ite_none_right_eq_some.mp hstep
      obtain ⟨monitor, -, rfl⟩ := Option.map_eq_some_iff.mp hstep
      rcases h with ⟨hrpc, hkept⟩ | ⟨hrpc, hclearing⟩
      · exact .kept hrpc ⟨hkept.made, hkept.due, hkept.complete⟩
      · exact .clearing hrpc
          ⟨hclearing.registered, hclearing.handler, hclearing.size, hclearing.cleared⟩
  | load policy =>
      obtain ⟨hidle, hstep⟩ := Option.ite_none_right_eq_some.mp hstep
      have hidle' := eq_idle hidle
      have hkept := h.kept_of_idle hidle'
      rw [← Option.some.inj hstep]
      rcases rpcLoadPolicy_cases policy s with ⟨answer, heq⟩ | ⟨name, hname, hne, heq⟩
      · rw [heq]
        exact of_idle (hkept.of_rpc (by rw [hidle'])) rfl
      · rw [heq]
        obtain ⟨hhandler, hregistered⟩ := hquiet name hname hne
        refine .clearing rfl ⟨hregistered, hhandler, rfl, fun sw d hdpid => Or.inl ?_⟩
        obtain ⟨_, -, hlookup⟩ := hregistered.exists_conn hwf hdpid
        exact Dict.mem_of_lookup hlookup
  | clear => exact hquiet.elim
  | current =>
      obtain ⟨hidle, hstep⟩ := Option.ite_none_right_eq_some.mp hstep
      have hidle' := eq_idle hidle
      rw [← Option.some.inj hstep]
      exact of_idle ((h.kept_of_idle hidle').of_rpc (by rw [hidle'])) rfl
  | rpcStep => exact h.rpcMove hs hwf huses (rpcStep_cases hstep)
  | rehash dps adaptive =>
      obtain ⟨⟨hdps, -⟩, hstep⟩ := Option.ite_none_right_eq_some.mp hstep
      rw [← Option.some.inj hstep]
      rcases h with ⟨hrpc, hkept⟩ | ⟨hrpc, hclearing⟩
      · exact .kept hrpc ⟨hkept.made, hkept.due, hkept.complete⟩
      · refine .clearing hrpc ⟨fun d hd => ?_, hclearing.handler, ?_, hclearing.cleared⟩
        · obtain ⟨hlink, hlookup⟩ := hclearing.registered d hd
          exact ⟨hlink, (AList.perm_lookup hdps).trans hlookup⟩
        · exact (hdps.map Sigma.fst).length_eq.trans hclearing.size

end Phase


/-! ## Runs -/

theorem kept_init (hinit : init topo = some s) : Kept topo tabled s := by
  obtain ⟨policies, -, hinit⟩ := Option.bind_eq_some_iff.mp hinit
  rw [← Option.some.inj hinit]
  exact ⟨fun _ _ _ _ he => absurd he List.not_mem_nil, fun _ _ _ _ _ _ he => absurd he List.not_mem_nil,
    fun _ _ _ _ hlink => nomatch hlink⟩

theorem Reachable.phase (h : Reachable topo (Quiet topo) s) (hwf : topo.WellFormed)
    (howned : topo.OwnedVlans) (huses : Uses topo tabled) : Valid topo s ∧ Phase topo tabled s := by
  obtain ⟨s₀, hinit, hrun⟩ := h
  have hkeep : ∀ s s', Steps topo (Quiet topo) s s' → Valid topo s ∧ Phase topo tabled s →
      Valid topo s' ∧ Phase topo tabled s' := by
    rintro s s' ⟨a, hquiet, hstep⟩ hs
    exact ⟨hs.1.step hwf huses hstep, hs.2.step hs.1 hwf huses hquiet hstep⟩
  have hidle : s₀.rpc = .idle := by
    obtain ⟨policies, -, hinit⟩ := Option.bind_eq_some_iff.mp hinit
    rw [← Option.some.inj hinit]
  exact invariant_of_run (P := fun s => Valid topo s ∧ Phase topo tabled s) hkeep hrun
    ⟨valid_init hwf howned hinit, .of_idle (kept_init hinit) hidle⟩

theorem Kept.exists_part (h : Kept topo tabled s) (hs : Valid topo s) (hwf : topo.WellFormed)
    (huses : Uses topo tabled) (hsettled : Settled topo s) :
    ∃ cores, Topology.Part topo (tabled s.curpolicy) cores (live topo s) ∧
      topo.transmit (live topo s) = topo.send (topo.completion (tabled s.curpolicy) cores) := by
  have hstream : ∀ sw dpid, topo.dpid sw = some dpid → s.stream dpid = [] := by
    intro sw dpid hdpid
    obtain ⟨conn, hlink, -, hqueue⟩ := hsettled.2.2 dpid (Topology.mem_dpids hwf hdpid)
    rw [stream_link hlink, hqueue]
  obtain ⟨cores, hpart⟩ : ∃ cores, Topology.Part topo (tabled s.curpolicy) cores (live topo s) := by
    apply Topology.exists_part_of_makes hwf (huses.nonempty hwf s.curpolicy)
    · intro sw dpid hdpid
      rw [live_eq hdpid]
      have hmade := h.made sw dpid hdpid
      rw [hstream sw dpid hdpid] at hmade
      exact ⟨hmade, (hs.sound sw dpid hdpid).here.unique⟩
    · exact fun sw hdpid => live_none hdpid
  refine ⟨cores, hpart, hpart.transmit_complete hwf fun sw dpid hdpid flow hflow => ?_⟩
  obtain ⟨conn, hlink, hfeatured, -⟩ := hsettled.2.2 dpid (Topology.mem_dpids hwf hdpid)
  have hcovered := h.complete sw dpid conn hdpid hlink hfeatured flow hflow
  rw [System.due, hsettled.1, hsettled.2.1, settled, hstream sw dpid hdpid] at hcovered
  rw [live_eq hdpid]
  simpa [pending, Rpc.outgoing] using hcovered

end System

def PolicyName.breadth (topo : Topology) : PolicyName → Nat
  | .default => 1
  | .static => topo.coreSwitches.keys.length
  | .adaptive => topo.coreSwitches.keys.length

theorem Uses.breadth {topo : Topology} {tabled : PolicyName → List Str} (h : Uses topo tabled)
    (hwf : topo.WellFormed) (name : PolicyName) :
    (topo.coreSwitches.keys.filter (· ∈ tabled name)).length = name.breadth topo := by
  cases name with
  | default =>
      obtain ⟨c, hc, htabled⟩ := h.default
      rw [htabled]
      exact Topology.length_filter_single hwf hc
  | static =>
      rw [h.static, Topology.filter_keys]
      rfl
  | adaptive =>
      rw [h.adaptive, Topology.filter_keys]
      rfl

namespace System

variable {topo : Topology} {tabled : PolicyName → List Str} {s : System}

/-- Frames for hosts arrive, and a broadcast reaches all hosts over the core switches that the
current policy uses. -/
def Delivers (topo : Topology) (s : System) : Prop :=
  ∀ src ∈ topo.hosts.values,
    (∀ dst ∈ topo.hosts.values, src ≠ dst → ∀ frame, frame.ethDst = dst.eth →
      topo.transmit (live topo s) 3 frame src = some [dst.name]) ∧
    ∀ frame, topo.Unknown frame → frame.ethSrc = src.eth → ∃ copies,
      topo.transmit (live topo s) 3 frame src = some copies ∧
        topo.Covers src (s.curpolicy.breadth topo) copies

theorem Kept.delivers (h : Kept topo tabled s) (hs : Valid topo s) (hwf : topo.WellFormed)
    (huses : Uses topo tabled) (hsettled : Settled topo s) : Delivers topo s := by
  obtain ⟨cores, hpart, htransmit⟩ := h.exists_part hs hwf huses hsettled
  have hprog := hpart.programmed hwf
  intro src hsrc
  rw [htransmit]
  constructor
  · intro dst hdst hne frame hframe
    exact Topology.send_unicast hwf hprog (huses.cores _) hsrc hdst hne hframe
  · intro frame hun hframe
    obtain ⟨copies, hsend, hcovers⟩ :=
      Topology.exists_send_broadcast hwf hprog hsrc hun hframe
    rw [huses.breadth hwf] at hcovers
    exact ⟨copies, hsend, hcovers⟩

theorem Reachable.delivers (h : Reachable topo (Quiet topo) s) (hwf : topo.WellFormed)
    (howned : topo.OwnedVlans) (hsettled : Settled topo s) : Delivers topo s := by
  obtain ⟨tabled, huses⟩ := exists_uses hwf howned
  obtain ⟨hs, hphase⟩ := h.phase hwf howned huses
  exact (hphase.kept_of_idle hsettled.1).delivers hs hwf huses hsettled

/-- Once everything is carried out in a quiet run, the network does what the current policy wants.
-/
theorem settled_delivers (hwf : topo.WellFormed) (howned : topo.OwnedVlans)
    (h : Reachable topo (Quiet topo) s) (hsettled : Settled topo s) : Delivers topo s :=
  h.delivers hwf howned hsettled

def sampleLoad : List Action :=
  [.connect 101, .connect 102, .connect 103, .connect 104, .connect 105] ++
    [(0, 11), (1, 11), (2, 11), (3, 1), (4, 13)].flatMap (fun (conn, rules) =>
      .switchFeatures conn :: .stateChange (.main conn) :: List.replicate rules .handlerStep) ++
    .load "static".toList :: List.replicate 66 .rpcStep ++
    [(101, 23), (102, 23), (103, 23), (104, 15), (105, 27)].flatMap fun (dpid, mods) =>
      List.replicate mods (.take dpid)

theorem settled_delivers_sample : ∃ s copies, Reachable sampleTopology (Quiet sampleTopology) s ∧
    Settled sampleTopology s ∧ s.curpolicy = .static ∧
    sampleTopology.transmit (live sampleTopology s) 3 ⟨['3'], ['1']⟩ (sampleHost '3' '1' 1) =
      some [['h', '1']] ∧
    sampleTopology.transmit (live sampleTopology s) 3 ⟨['3'], ['f']⟩ (sampleHost '3' '1' 1) =
      some copies ∧ sampleTopology.Covers (sampleHost '3' '1' 1) 2 copies := by
  have hrun : ((init sampleTopology).bind (follow (step sampleTopology) (Quiet sampleTopology)
      sampleLoad)).map (fun s => (decide (Settled sampleTopology s), s.curpolicy)) =
        some (true, .static) := by decide +kernel
  obtain ⟨s, hreach, hs⟩ := exists_reachable hrun
  obtain ⟨hsettled, hcurpolicy⟩ := Prod.mk.inj hs
  have hunknown : sampleTopology.Unknown ⟨['3'], ['f']⟩ := by
    unfold Topology.Unknown
    decide
  have hsrc : sampleHost '3' '1' 1 ∈ sampleTopology.hosts.values := by decide
  obtain ⟨hunicast, hbroadcast⟩ := settled_delivers sampleTopology_wellFormed sampleTopology_ownedVlans hreach
    (of_decide_eq_true hsettled) _ hsrc
  obtain ⟨copies, hsend, hcovers⟩ := hbroadcast ⟨['3'], ['f']⟩ hunknown rfl
  rw [hcurpolicy] at hcovers
  exact ⟨s, copies, hreach, of_decide_eq_true hsettled, hcurpolicy,
    hunicast (sampleHost '1' '2' 0) (by decide) (by decide) _ rfl, hsend, hcovers⟩

end System

end CloudComputing.Minidc
