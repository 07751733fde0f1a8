import CloudComputing.MembershipProtocol.Handling

/-!
# The order of delivery

The emulated network hands messages over in any order.  What the membership
list says of an address depends on the heartbeats received for it, not on their
order: it is the greatest one, and it is new when it is greater than before.
-/

namespace CloudComputing.MembershipProtocol

/-- The membership list as a table: heartbeat and timestamp of an address. -/
def Member.table (m : Member) (a : Address) : Option (Int × Int) :=
  (m.memberList.find? fun entry => entry.address = a).map fun entry =>
    (entry.heartbeat, entry.timestamp)

/-- What is known of an address after one more heartbeat. -/
def hear (now : Int) (known : Option (Int × Int)) (heartbeat : Int) : Option (Int × Int) :=
  match known with
  | none => some (heartbeat, now)
  | some (old, time) => if old < heartbeat then some (heartbeat, now) else some (old, time)

/-- What is known after any number of heartbeats: the greatest of all, at the time of the old one
unless it is greater. -/
def merged (now : Int) (known : Option (Int × Int)) (heard : List Int) : Option (Int × Int) :=
  match known, heard.max? with
  | known, none => known
  | none, some greatest => some (greatest, now)
  | some (old, time), some greatest =>
      if old < greatest then some (greatest, now) else some (old, time)

def heardOf (a : Address) (msgs : List Msg) : List Int :=
  (msgs.filter fun msg => msg.addr = a).map Msg.heartbeat

section

variable {now h : Int} {a b : Address} {es : List MemberListEntry} {c : Call} {msg : Msg}
  {known : Option (Int × Int)} {heard : List Int} {msgs msgs' : List Msg}

/-! ## One heartbeat after the other -/

theorem merged_nil : merged now known [] = known := by
  unfold merged
  cases known <;> rfl

theorem merged_cons : merged now known (h :: heard) = merged now (hear now known h) heard := by
  unfold merged
  rw [List.max?_cons]
  cases heard.max? with
  | none =>
      cases known with
      | none => rfl
      | some old =>
          obtain ⟨old, time⟩ := old
          by_cases hold : old < h <;> simp [hear, hold]
  | some greatest =>
      simp only [Option.elim_some]
      cases known with
      | none =>
          simp only [hear]
          split
          case isTrue hlt => rw [max_eq_right hlt.le]
          case isFalse hle => rw [max_eq_left (not_lt.mp hle)]
      | some old =>
          obtain ⟨old, time⟩ := old
          simp only [hear]
          by_cases hold : old < h
          · have hmax : old < max h greatest := lt_of_lt_of_le hold (le_max_left _ _)
            rw [if_pos hold, if_pos hmax]
            dsimp only
            split
            case isTrue hlt => rw [max_eq_right hlt.le]
            case isFalse hle => rw [max_eq_left (not_lt.mp hle)]
          · rw [if_neg hold]
            dsimp only
            by_cases hgreatest : old < greatest
            · have hle : h ≤ greatest := by omega
              rw [max_eq_right hle]
            · have hmax : ¬ old < max h greatest := by omega
              rw [if_neg hgreatest, if_neg hmax]

theorem foldl_hear : heard.foldl (hear now) known = merged now known heard := by
  induction heard generalizing known with
  | nil => rw [merged_nil, List.foldl_nil]
  | cons h heard ih => rw [List.foldl_cons, ih, merged_cons]

theorem hear_comm (h h' : Int) :
    hear now (hear now known h) h' = hear now (hear now known h') h := by
  unfold hear
  cases known with
  | none => grind
  | some old => grind

theorem merged_perm {heard' : List Int} (hperm : heard.Perm heard') :
    merged now known heard = merged now known heard' := by
  rw [← foldl_hear, ← foldl_hear]
  exact hperm.foldl_eq' (fun h _ h' _ z => hear_comm h h') known

/-! ## One message -/

theorem find?_raiseEntry : ((raiseEntry now a h es).find? fun entry => entry.address = b) =
    (es.find? fun entry => entry.address = b).map fun entry =>
      if b = a then { entry with heartbeat := h, timestamp := now } else entry := by
  induction es with
  | nil => rfl
  | cons e es ih =>
      unfold raiseEntry
      by_cases ha : e.address = a
      · rw [if_pos ha]
        have haddress : MemberListEntry.address { e with heartbeat := h, timestamp := now } =
            e.address := rfl
        by_cases hb : e.address = b
        · rw [List.find?_cons_of_pos (by simpa [haddress] using hb),
            List.find?_cons_of_pos (by simpa using hb), Option.map_some, if_pos (hb ▸ ha)]
        · have hne : b ≠ a := fun heq => hb (ha.trans heq.symm)
          rw [List.find?_cons_of_neg (by simpa [haddress] using hb),
            List.find?_cons_of_neg (by simpa using hb)]
          simp [hne]
      · rw [if_neg ha]
        by_cases hb : e.address = b
        · have hne : b ≠ a := fun heq => ha (hb.trans heq)
          rw [List.find?_cons_of_pos (by simpa using hb), List.find?_cons_of_pos (by simpa using hb)]
          simp [hne]
        · rw [List.find?_cons_of_neg (by simpa using hb), List.find?_cons_of_neg (by simpa using hb),
            ih]

theorem table_updateMembership : (c.updateMembership now a h).member.table b =
    if b = a then hear now (c.member.table b) h else c.member.table b := by
  unfold Call.updateMembership
  cases hfind : c.member.memberList.find? fun entry => entry.address = a with
  | some e =>
      dsimp only
      by_cases hb : b = a
      · subst hb
        have hknown : c.member.table b = some (e.heartbeat, e.timestamp) := by
          rw [Member.table, hfind, Option.map_some]
        rw [if_pos rfl, hknown]
        by_cases hlt : e.heartbeat < h
        · simp [hlt, Call.sendHeartbeat, Call.setMemberList, Member.table, find?_raiseEntry, hfind,
            hear]
        · simp [hlt, hknown, hear]
      · rw [if_neg hb]
        split
        · simp [Call.sendHeartbeat, Call.setMemberList, Member.table, find?_raiseEntry, hb]
        · rfl
  | none =>
      have hnew : MemberListEntry.address ⟨a.id, a.port, h, now⟩ = a := rfl
      by_cases hb : b = a
      · subst hb
        simp [Call.setMemberList, Member.table, List.find?_append, hfind, hnew, hear]
      · simp [Call.setMemberList, Member.table, List.find?_append, hnew, hb, Ne.symm hb]

theorem table_answer : (c.answer msg).member.table b = c.member.table b := by
  rw [answer_member]
  rfl

theorem inGroup_updateMembership :
    (c.updateMembership now a h).member.inGroup = c.member.inGroup := by
  unfold Call.updateMembership
  split
  · split <;> rfl
  · rfl

theorem inGroup_recvCallBack : (c.recvCallBack now msg).member.inGroup =
    (c.member.inGroup || decide (msg.msgType = .joinRep)) := by
  rw [Call.recvCallBack, inGroup_updateMembership, answer_member]

/-! ## A batch of messages -/

/-- At one address the batch is the heartbeats received for it. -/
theorem table_foldl : (msgs.foldl (Call.recvCallBack now) c).member.table a =
    (heardOf a msgs).foldl (hear now) (c.member.table a) := by
  induction msgs generalizing c with
  | nil => rfl
  | cons msg msgs ih =>
      rw [List.foldl_cons, ih, Call.recvCallBack, table_updateMembership, table_answer]
      unfold heardOf
      by_cases ha : msg.addr = a
      · rw [if_pos ha.symm, List.filter_cons_of_pos (by simpa using ha), List.map_cons,
          List.foldl_cons]
      · rw [if_neg (Ne.symm ha), List.filter_cons_of_neg (by simpa using ha)]

theorem inGroup_foldl : (msgs.foldl (Call.recvCallBack now) c).member.inGroup =
    (c.member.inGroup || msgs.any fun msg => msg.msgType = .joinRep) := by
  induction msgs generalizing c with
  | nil => simp
  | cons msg msgs ih =>
      rw [List.foldl_cons, ih, inGroup_recvCallBack, List.any_cons, Bool.or_assoc]

/-- In whatever order a node handles its messages, it ends with the same flag and the same table:
of every address the greatest of the old and the received heartbeats, with the current time where
the address is new or the heartbeat has grown, and with the old time elsewhere. -/
theorem recvCallBack_order (c : Call) (now : Int) (hperm : msgs.Perm msgs') :
    (msgs.foldl (Call.recvCallBack now) c).member.inGroup =
      (msgs'.foldl (Call.recvCallBack now) c).member.inGroup ∧
    ∀ a, (msgs.foldl (Call.recvCallBack now) c).member.table a =
        (msgs'.foldl (Call.recvCallBack now) c).member.table a ∧
      (msgs.foldl (Call.recvCallBack now) c).member.table a =
        merged now (c.member.table a) (heardOf a msgs) := by
  refine ⟨?_, fun a => ⟨?_, ?_⟩⟩
  · rw [inGroup_foldl, inGroup_foldl, hperm.any_eq]
  · rw [table_foldl, table_foldl, foldl_hear, foldl_hear]
    exact merged_perm ((hperm.filter _).map _)
  · rw [table_foldl, foldl_hear]

/-- A new member whose two heartbeats overtake each other. -/
theorem recvCallBack_order_newMember :
    ([⟨.joinRep, ⟨2, 0⟩, 3⟩, ⟨.heartbeat, ⟨2, 0⟩, 5⟩].foldl (Call.recvCallBack 9)
        ((Member.new ⟨1, 0⟩).call.nodeStart 0)).member.inGroup =
      ([⟨.heartbeat, ⟨2, 0⟩, 5⟩, ⟨.joinRep, ⟨2, 0⟩, 3⟩].foldl (Call.recvCallBack 9)
        ((Member.new ⟨1, 0⟩).call.nodeStart 0)).member.inGroup :=
  (recvCallBack_order ((Member.new ⟨1, 0⟩).call.nodeStart 0) 9 (List.Perm.swap _ _ [])).1

end

end CloudComputing.MembershipProtocol
