import CloudComputing.Minidc.Profiles

/-!
# The number of servers a client uses

A client of the replicated store asks the first `activeReps` of its servers and
waits for the slowest.  `rpc_setactive` refuses zero and more servers than there
are, but not a negative number, which a slice counts from the end of the list.
-/

namespace CloudComputing.Minidc

open Lib

/-! ## Slices -/

theorem length_sliceTo {α : Type} {n : Int} {l : List α} (hpos : 0 ≤ n) (hle : n ≤ l.length) :
    ((sliceTo n l).length : Int) = n := by
  rw [sliceTo, if_neg (by omega), List.length_take]
  omega

namespace RepMemcacheProfile

/-! ## What is wanted -/

/-- How the profile answers one request. -/
structure AnswersLegally (p : RepMemcacheProfile) (client : Str) (num : Int) : Prop where
  accepted : (p.rpcSetactive client num).1.1 = true → ∃ cl,
    (p.rpcSetactive client num).2.clients.lookup client = some cl ∧ cl.activeReps = num ∧
      1 ≤ num ∧ num ≤ p.numSrvs
  refused : (p.rpcSetactive client num).1.1 = false → (p.rpcSetactive client num).2 = p

/-- What the clients do in their next iterations. -/
def ContactsLegally (p : RepMemcacheProfile) : Prop :=
  ∀ client cl, p.clients.lookup client = some cl →
    ∀ {τ : Type} [LinearOrder τ] (mcget : Str → Nat → τ),
      ((cl.iteration mcget).1.length : Int) = cl.activeReps ∧ 1 ≤ cl.activeReps ∧
        (cl.iteration mcget).2.isSome = true

structure StaysLegal (p : RepMemcacheProfile) (requests : List (Str × Int)) : Prop where
  answers : ∀ before client num rest, requests = before ++ (client, num) :: rest →
    (p.after before).AnswersLegally client num
  contacts : ∀ before, before <+: requests → (p.after before).ContactsLegally

/-! ## The invariant -/

/-- Every client knows all servers and uses some of them. -/
structure Sound (p : RepMemcacheProfile) : Prop where
  srvs : ∀ client cl, p.clients.lookup client = some cl → cl.srvs.length = p.numSrvs
  active : ∀ client cl, p.clients.lookup client = some cl →
    1 ≤ cl.activeReps ∧ cl.activeReps ≤ p.numSrvs

variable {p p' : RepMemcacheProfile} {hosts : List Mininet.Host} {numSrvs numClients : Nat}
  {client : Str} {num : Int} {requests : List (Str × Int)}

/-- What the loop over the clients keeps. -/
structure Filling (numSrvs : Nat) (p : RepMemcacheProfile) : Prop where
  sound : p.Sound
  count : p.numSrvs = numSrvs
  ips : p.ips.length = numSrvs
  default : p.activeReps = (numSrvs : Int)

theorem Filling.addClient {i : Nat} (hpos : 0 < numSrvs) (h : Filling numSrvs p)
    (hadd : p.addClient hosts i = some p') : Filling numSrvs p' := by
  obtain ⟨host, -, hp'⟩ := Option.bind_eq_some_iff.mp hadd
  obtain rfl := Option.some.inj hp'
  refine ⟨⟨fun client cl hcl => ?_, fun client cl hcl => ?_⟩, h.count, h.ips, h.default⟩
  · rw [Dict.lookup_set] at hcl
    split at hcl
    case isTrue =>
      obtain rfl := Option.some.inj hcl
      exact h.ips.trans h.count.symm
    case isFalse => exact h.sound.srvs client cl hcl
  · rw [Dict.lookup_set] at hcl
    split at hcl
    case isTrue =>
      obtain rfl := Option.some.inj hcl
      exact ⟨by change 1 ≤ p.activeReps; rw [h.default]; omega,
        le_of_eq (h.default.trans (congrArg Nat.cast h.count.symm))⟩
    case isFalse => exact h.sound.active client cl hcl

theorem sound_create (hpos : 0 < numSrvs)
    (h : (new numSrvs numClients none).create hosts = some p) : p.Sound := by
  obtain ⟨ips, hips, hloop⟩ := Option.bind_eq_some_iff.mp h
  have hlength : ips.length = numSrvs := by
    have hmap := congrArg List.length (mapM_eq_some_iff.mp hips)
    simpa [new] using hmap.symm
  have hstart : Filling numSrvs { new numSrvs numClients none with ips := ips } :=
    ⟨⟨fun _ _ hcl => (nomatch hcl), fun _ _ hcl => (nomatch hcl)⟩, rfl, hlength, rfl⟩
  have hend := foldlM_invariant (P := fun _ => Filling numSrvs)
    (fun _ _ _ _ hfilling hadd => hfilling.addClient hpos hadd) hstart hloop
  exact hend.sound

/-! ## A request -/

theorem rpcSetactive_cases (p : RepMemcacheProfile) (client : Str) (num : Int) :
    (∃ reply, p.rpcSetactive client num = ((false, reply), p) ∧
      ∀ cl, p.clients.lookup client = some cl → (p.numSrvs : Int) < num ∨ num = 0) ∨
    ∃ cl, p.clients.lookup client = some cl ∧ num ≤ p.numSrvs ∧ num ≠ 0 ∧
      p.rpcSetactive client num = ((true, .active client num),
        { p with clients := Dict.set client (cl.setActiveReps num) p.clients }) := by
  cases hcl : p.clients.lookup client with
  | none =>
      refine Or.inl ⟨.unexpectedClient client p.clients.keys, ?_, fun cl h => nomatch h⟩
      simp only [rpcSetactive, hcl]
  | some cl =>
      by_cases hmany : num > p.numSrvs
      · refine Or.inl ⟨.tooMany num p.numSrvs, ?_, fun _ _ => Or.inl hmany⟩
        simp only [rpcSetactive, hcl, if_pos hmany]
      · by_cases hzero : num = 0
        · refine Or.inl ⟨.outOfRange p.numSrvs, ?_, fun _ _ => Or.inr hzero⟩
          simp only [rpcSetactive, hcl, if_neg hmany, if_pos hzero]
        · refine Or.inr ⟨cl, rfl, not_lt.mp hmany, hzero, ?_⟩
          simp only [rpcSetactive, hcl, if_neg hmany, if_neg hzero]

theorem mem_clients_rpcSetactive {other : Str} :
    other ∈ (p.rpcSetactive client num).2.clients ↔ other ∈ p.clients := by
  rcases rpcSetactive_cases p client num with ⟨reply, h, -⟩ | ⟨cl, hcl, -, -, h⟩
  · rw [h]
  · rw [h, Dict.mem_set]
    constructor
    · rintro (rfl | hother)
      · exact Dict.mem_of_lookup hcl
      · exact hother
    · exact Or.inr

theorem Sound.rpcSetactive (h : p.Sound) (hnum : client ∈ p.clients → 0 ≤ num) :
    (p.rpcSetactive client num).2.Sound := by
  rcases rpcSetactive_cases p client num with ⟨reply, hstep, -⟩ | ⟨cl, hcl, hle, hzero, hstep⟩
  · rw [hstep]
    exact h
  · have hpos := hnum (Dict.mem_of_lookup hcl)
    rw [hstep]
    refine ⟨fun other cl' hcl' => ?_, fun other cl' hcl' => ?_⟩
    · rw [Dict.lookup_set] at hcl'
      split at hcl'
      case isTrue =>
        obtain rfl := Option.some.inj hcl'
        exact h.srvs client cl hcl
      case isFalse => exact h.srvs other cl' hcl'
    · rw [Dict.lookup_set] at hcl'
      split at hcl'
      case isTrue =>
        obtain rfl := Option.some.inj hcl'
        exact ⟨by change 1 ≤ num; omega, hle⟩
      case isFalse => exact h.active other cl' hcl'

theorem answersLegally (hnum : client ∈ p.clients → 0 ≤ num) : p.AnswersLegally client num := by
  rcases rpcSetactive_cases p client num with ⟨reply, h, -⟩ | ⟨cl, hcl, hle, hzero, h⟩
  · constructor
    case accepted => simp [h]
    case refused => simp [h]
  · have hpos := hnum (Dict.mem_of_lookup hcl)
    constructor
    case accepted =>
      intro _
      rw [h]
      exact ⟨cl.setActiveReps num, Dict.lookup_set_self, rfl, by omega, hle⟩
    case refused => simp [h]

/-- A negative number is accepted. -/
theorem not_answersLegally (hclient : client ∈ p.clients) (hneg : num < 0) :
    ¬ p.AnswersLegally client num := by
  intro hlegal
  rcases rpcSetactive_cases p client num with ⟨reply, -, hno⟩ | ⟨cl, -, -, -, h⟩
  · obtain ⟨cl, hcl⟩ := Option.isSome_iff_exists.mp (AList.lookup_isSome.mpr hclient)
    rcases hno cl hcl with hmany | hzero
    · omega
    · omega
  · obtain ⟨-, -, -, hone, -⟩ := hlegal.accepted (by rw [h])
    omega

theorem Sound.contactsLegally (h : p.Sound) : p.ContactsLegally := by
  intro client cl hcl τ _ mcget
  obtain ⟨hone, hle⟩ := h.active client cl hcl
  have hlength : (cl.active.length : Int) = cl.activeReps :=
    length_sliceTo (by omega) (by rw [h.srvs client cl hcl]; exact hle)
  refine ⟨hlength, hone, ?_⟩
  have hne : cl.active.mapIdx (fun i h => mcget h i) ≠ [] := by
    intro hnil
    have hzero := congrArg List.length hnil
    rw [List.length_mapIdx, List.length_nil] at hzero
    omega
  rw [RepGetClient.iteration, List.isSome_max?_iff]
  exact hne

/-! ## Runs -/

theorem after_concat (p : RepMemcacheProfile) (requests : List (Str × Int)) (request : Str × Int) :
    p.after (requests ++ [request]) =
      ((p.after requests).rpcSetactive request.1 request.2).2 := by
  rw [after, List.foldl_append]
  rfl

theorem mem_clients_after {other : Str} :
    other ∈ (p.after requests).clients ↔ other ∈ p.clients := by
  induction requests using List.reverseRecOn with
  | nil => rfl
  | append_singleton requests request ih => rw [after_concat, mem_clients_rpcSetactive, ih]

theorem Sound.after (h : p.Sound) (hnum : ∀ r ∈ requests, r.1 ∈ p.clients → 0 ≤ r.2) :
    (p.after requests).Sound := by
  induction requests using List.reverseRecOn with
  | nil => exact h
  | append_singleton requests request ih =>
      rw [after_concat]
      apply (ih fun r hr => hnum r (List.mem_append_left _ hr)).rpcSetactive
      intro hclient
      exact hnum request (by simp) (mem_clients_after.mp hclient)

/-- The number of servers stays legal exactly when no client is told a negative number. -/
theorem staysLegal_iff (hpos : 0 < numSrvs)
    (hcreate : (new numSrvs numClients none).create hosts = some p) (requests : List (Str × Int)) :
    p.StaysLegal requests ↔ ∀ r ∈ requests, r.1 ∈ p.clients → 0 ≤ r.2 := by
  constructor
  · rintro hlegal ⟨client, num⟩ hmem hclient
    obtain ⟨before, rest, rfl⟩ := List.append_of_mem hmem
    by_contra hneg
    exact not_answersLegally (mem_clients_after.mpr hclient) (not_le.mp hneg)
      (hlegal.answers before client num rest rfl)
  · intro hnum
    refine ⟨fun before client num rest hsplit => ?_, fun before hbefore => ?_⟩
    · apply answersLegally
      intro hclient
      exact hnum (client, num) (by simp [hsplit]) (mem_clients_after.mp hclient)
    · apply Sound.contactsLegally
      exact (sound_create hpos hcreate).after fun r hr => hnum r (hbefore.subset hr)

/-- One server and one client. -/
def pair : RepMemcacheProfile :=
  ((new 1 1 none).create [⟨['a'], ['1']⟩, ⟨['b'], ['2']⟩]).getD (new 1 1 none)

theorem staysLegal_iff_pair : pair.StaysLegal [(['b'], 1), (['c'], -1)] := by
  have hcreate : (new 1 1 none).create [⟨['a'], ['1']⟩, ⟨['b'], ['2']⟩] = some pair := rfl
  exact (staysLegal_iff (by decide) hcreate _).mpr (by decide)

theorem not_staysLegal_pair : ¬ pair.StaysLegal [(['b'], -1)] := fun h =>
  not_answersLegally (p := pair) (by decide) (by decide) (h.answers [] ['b'] (-1) [] rfl)

end RepMemcacheProfile

end CloudComputing.Minidc
