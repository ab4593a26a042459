/-
# `Laplus.Tcp.Expected` — what `rcv.nxt` names

The text step moves `rcv.nxt` past the whole segment, the FIN step puts it
right after the first octet of the segment, and for a segment with text and a
FIN the second one is the last to write.  So `rcv.nxt` names the next octet
expected, and never moves back, exactly when no FIN that is processed follows
text or begins before `rcv.nxt`.
-/
import Laplus.Tcp.ReceiveBuffer

namespace Laplus.Tcp

open Net Lib

/-! ## Sequence order -/

/-- `a` is not behind `b`: less than half of sequence space lies between. -/
def NotBehind (a b : UInt32) : Prop := (b - a).toNat < 2 ^ 31

theorem notBehind_refl (a : UInt32) : NotBehind a a := by simp [NotBehind]

/-- An octet in the window lies less than a window beyond `rcv.nxt`. -/
theorem inWindow_near {rcv : RcvSide} {x : UInt32} (h : inWindow rcv x) :
    (x - rcv.nxt).toNat < rcv.wnd.toNat := by
  simp only [inWindow, Bool.and_eq_true, decide_eq_true_eq, UInt32.le_iff_toNat_le,
    UInt32.lt_iff_toNat_lt, UInt32.toNat_add, UInt16.toNat_toUInt32] at h
  have hx := x.toNat_lt
  have hn := rcv.nxt.toNat_lt
  rw [UInt32.toNat_sub]
  omega

/-- The end of a segment that begins in the window. -/
theorem notBehind_begins {rcv : RcvSide} {x : UInt32} (n : UInt16)
    (h : (x - rcv.nxt).toNat ≤ rcv.wnd.toNat) : NotBehind rcv.nxt (x + n.toUInt32) := by
  have hw := rcv.wnd.toNat_lt
  have hn := n.toNat_lt
  have hx := x.toNat_lt
  have hr := rcv.nxt.toNat_lt
  rw [UInt32.toNat_sub] at h
  rw [NotBehind, UInt32.toNat_sub, UInt32.toNat_add, UInt16.toNat_toUInt32]
  omega

/-- The end of a segment that ends in the window. -/
theorem notBehind_ends {rcv : RcvSide} {x : UInt32} (h : inWindow rcv (x - 1)) :
    NotBehind rcv.nxt x := by
  have hnear := inWindow_near h
  have hw := rcv.wnd.toNat_lt
  have hx := x.toNat_lt
  have hr := rcv.nxt.toNat_lt
  have hone : (1 : UInt32).toNat = 1 := rfl
  rw [UInt32.toNat_sub, UInt32.toNat_sub, hone] at hnear
  rw [NotBehind, UInt32.toNat_sub]
  omega

/-- A segment that passes the window test does not end behind `rcv.nxt`. -/
theorem notBehind_of_acceptable {rcv : RcvSide} {seg : SegmentInfo} (h : acceptable rcv seg) :
    NotBehind rcv.nxt (seg.seq + seg.len.toUInt32) := by
  unfold acceptable at h
  split at h
  · split at h
    · refine notBehind_begins _ ?_
      rw [decide_eq_true_eq] at h
      simp [h]
    · exact notBehind_begins _ (Nat.le_of_lt (inWindow_near h))
  · split at h
    · cases h
    · rcases Bool.or_eq_true _ _ ▸ h with h | h
      · exact notBehind_begins _ (Nat.le_of_lt (inWindow_near h))
      · exact notBehind_ends h

/-! ## The handler -/

/-- The states in which text is taken, SYN-RECEIVED once it is acknowledged. -/
def PcbState.takesText : PcbState → Bool
  | .synReceived | .established | .finWait1 | .finWait2 => true
  | _ => false

/-- The segment begins at `rcv.nxt`, fits the window and is consumed: the
handler reaches its text, and takes it if there is any. -/
def Pcb.consumes (p : Pcb) (s : TcpSegment) : Bool :=
  p.reachesText s.info s.flg && decide (s.seq = p.rcv.nxt) &&
    decide (s.len ≤ p.rcv.wnd) && (s.data.isEmpty || p.state.takesText)

/-- A FIN is processed that is not the only octet of a consumed segment, or
the segment begins more than one octet before `rcv.nxt`. -/
def Pcb.misplacesFin (p : Pcb) (s : TcpSegment) : Prop :=
  p.reachesText s.info s.flg ∧ flgIsSet s.flg flgFin ∧
    (p.consumes s ∧ s.len ≠ 1 ∨ ¬ NotBehind p.rcv.nxt (s.seq + 1))

section Handler
variable {env : Env} {i : PcbId} {seg : SegmentInfo} {flags : UInt8} {data : List UInt8}
  {l f : Endpoint} {p : Pcb}

/-- Where the text is not reached the receive side stays as it is. -/
theorem unreached_rcv {o : Outcome} (h : Handled env i seg flags data l f p o)
    (hs : p.state.synchronized) (hr : p.reachesText seg flags = false) : o.pcb.rcv = p.rcv := by
  cases h with
  | dropped => rfl
  | answered => rw [Outcome.output_pcb, tcpOutput_pcb]; rfl
  | refused => rfl
  | reset _ o ho =>
      rcases ho with rfl | rfl
      · rfl
      · rw [Outcome.release_pcb, Outcome.output_pcb, tcpOutput_pcb]; rfl
  | processed ha o ho =>
      exfalso
      simp only [Pcb.reachesText, ha, Bool.true_and] at hr
      cases ho with
      | opened h hlo hhi => simp [h, hlo, hhi] at hr
      | shared h hb => cases hst : p.state <;> simp_all [PcbState.acking]
      | timeWait h => simp [h] at hr
      | unused h => rw [hs] at h; cases h

/-- What the text and FIN steps write. -/
theorem passed_rcvNxt (data : List UInt8) {o : Outcome} (ho : Passed env i seg flags p o)
    (ha : p.admits seg flags) (hs : p.state.synchronized) :
    (arrivesText env i seg flags data o).pcb.rcv.nxt =
      if flgIsSet flags flgFin then seg.seq + 1
      else if p.textTaken seg flags data then seg.seq + seg.len.toUInt32 else p.rcv.nxt := by
  have htakes : o.pcb.state.takesFin := by
    cases ho with
    | opened => rfl
    | shared h =>
        rw [ackedFin_state]
        have hp : ((Outcome.start p).setPcb (p.acked seg)).pcb.state = p.state := rfl
        rw [hp]
        cases hst : p.state with
        | established | finWait1 | finWait2 | closeWait | closing => split <;> rfl
        | _ => rw [hst] at h; exact absurd h (by decide)
    | timeWait h => split <;> simp [Outcome.setTimewaitTimer, h, PcbState.takesFin]
    | unused h => rw [hs] at h; cases h
  rw [arrivesText_rcvNxt, Pcb.finTaken, htakes, Bool.and_true, passed_takesText ha ho,
    (passed_receive ho).1]

end Handler

/-! ## One segment -/

section Segment
variable {env : Env} {i : PcbId} {p : Pcb} {s : TcpSegment}

theorem Pcb.consumes_iff : p.consumes s ↔ p.reachesText s.info s.flg ∧ s.seq = p.rcv.nxt ∧
    s.len ≤ p.rcv.wnd ∧ (s.data = [] ∨ p.state.takesText) := by
  simp [Pcb.consumes, and_assoc]

/-- A consumed text is taken. -/
theorem consumed_taken (h : p.consumes s) (hd : s.data ≠ []) :
    p.textTaken s.info s.flg s.data := by
  obtain ⟨hr, -, -, ht⟩ := Pcb.consumes_iff.mp h
  have ht := ht.resolve_left hd
  simp only [Pcb.reachesText, Bool.and_eq_true] at hr
  obtain ⟨ha, hst⟩ := hr
  have hempty : s.data.isEmpty = false := by simpa using hd
  cases hs : p.state with
  | synReceived | established | finWait1 | finWait2 =>
      rw [hs] at hst
      simp [Pcb.textTaken, ha, hs, hempty, hst]
  | _ => rw [hs] at ht; cases ht

/-- A segment without text, SYN and FIN has no length. -/
theorem len_bare (hd : s.data = []) (hsyn : flgIsSet s.flg flgSyn = false)
    (hfin : flgIsSet s.flg flgFin = false) : s.len = 0 := by
  simp [TcpSegment.len, hd, hsyn, hfin]

theorem seq_add_one_iff (n : UInt32) (len : UInt16) : n + 1 = n + len.toUInt32 ↔ len = 1 := by
  constructor
  · intro h
    have hlen : len.toUInt32 = 1 := by simpa [eq_comm] using h
    have hnat : len.toNat = 1 := by rw [← UInt16.toNat_toUInt32, hlen]; rfl
    exact UInt16.toNat_inj.mp hnat
  · rintro rfl
    rfl

/-- **The handler** names the next octet, and never an earlier one, exactly when
it does not misplace a FIN. -/
theorem handler_rcvNxt (hs : p.state.synchronized) :
    ((p.consumes s → (p.otherwise env i s).pcb.rcv.nxt = s.seq + s.len.toUInt32) ∧
        NotBehind p.rcv.nxt (p.otherwise env i s).pcb.rcv.nxt) ↔ ¬ p.misplacesFin s := by
  cases hr : p.reachesText s.info s.flg with
  | false =>
      have hrcv : (p.otherwise env i s).pcb.rcv = p.rcv :=
        unreached_rcv (arrivesOtherwise_handled _ _ _ _ _ _ _ _) hs hr
      rw [hrcv]
      simp [Pcb.misplacesFin, Pcb.consumes, hr, notBehind_refl]
  | true =>
      obtain ⟨o, ho, heq⟩ := reachesText_passed env i s.data s.foreignEp s.localEp hr
      have ha : p.admits s.info s.flg := by
        simp only [Pcb.reachesText, Bool.and_eq_true] at hr
        exact hr.1
      have hadm := ha
      simp only [Pcb.admits, hs, Bool.not_true, Bool.false_or, Bool.and_eq_true,
        Bool.not_eq_true'] at hadm
      obtain ⟨⟨⟨hacc, -⟩, hsyn⟩, -⟩ := hadm
      have hnxt := passed_rcvNxt s.data ho ha hs
      rw [Pcb.otherwise, heq, hnxt]
      cases hfin : flgIsSet s.flg flgFin with
      | true =>
          have hlen : s.info.seq + 1 = s.seq + s.len.toUInt32 ↔ s.len = 1 := seq_add_one_iff _ _
          simp only [Pcb.misplacesFin, hr, hfin, if_true, hlen, true_and, not_or, not_and, not_not]
          exact Iff.rfl
      | false =>
          simp only [Pcb.misplacesFin, hfin, Bool.false_eq_true, if_false, false_and, and_false,
            not_false_iff, iff_true]
          constructor
          · intro hc
            by_cases hd : s.data = []
            · have hseq := (Pcb.consumes_iff.mp hc).2.1
              have hnone : p.textTaken s.info s.flg s.data = false := by simp [Pcb.textTaken, hd]
              rw [hnone, len_bare hd hsyn hfin, hseq]
              simp
            · rw [if_pos (consumed_taken hc hd)]
              rfl
          · split
            · exact notBehind_of_acceptable hacc
            · exact notBehind_refl _

/-- A segment whose text is reached does not end the connection. -/
theorem reached_kept (hr : p.reachesText s.info s.flg) : (p.otherwise env i s).released = false := by
  obtain ⟨o, ho, heq⟩ := reachesText_passed env i s.data s.foreignEp s.localEp hr
  rw [Pcb.otherwise, heq, arrivesText_released]
  exact passed_released ho

end Segment

/-! ## The table -/

section Table
variable {t : Table} {i : PcbId} {s : TcpSegment}

/-- A connection the segment is not for keeps its `rcv`, or its slot is released. -/
theorem arrive_other (env : Env) (hsel : selected t s ≠ some i) (hu : (t.pcb i).state ≠ .free) :
    ((arrive env t s).1.pcb i).state = .free ∨ ((arrive env t s).1.pcb i).rcv = (t.pcb i).rcv := by
  have he := arrive_edit .boot env t s
  generalize (arrive env t s).1 = t' at he ⊢
  generalize (arrive env t s).2 = eff at he
  cases he with
  | rewrite j p' _ _ hj =>
      have hne : i ≠ j := fun h => hsel (h ▸ hj s rfl)
      exact .inr (by rw [Table.set_pcb_ne _ _ hne])
  | allocate j p' _ hf _ =>
      have hne : i ≠ j := fun h => hu (h ▸ firstFree_free hf)
      exact .inr (by rw [Table.set_pcb_ne _ _ hne, Table.claim_pcb_ne _ hne])
  | spent j hf _ _ _ he => cases he
  | release j _ _ _ =>
      rcases tcpPcbRelease_cases t j i with hz | ⟨-, hz⟩
      · exact .inl (by rw [hz]; rfl)
      · exact .inr (by rw [hz])
  | enqueue j q s' hj hev =>
      cases hev
      have hne : i ≠ j := fun h => hsel (h ▸ hj)
      right
      by_cases hq : i = q
      · subst hq
        rw [Table.pushBacklog, Table.set_pcb_self, Table.set_pcb_ne _ _ hne]
      · rw [Table.pushBacklog, Table.set_pcb_ne _ _ hq, Table.set_pcb_ne _ _ hne]
  | dequeue _ _ _ _ he => rcases he with ⟨_, he, -⟩ | ⟨_, _, he, -⟩ <;> cases he
  | silent => exact .inr rfl

end Table

/-! ## Three bytes and a FIN -/

/-- The connection after the handshake. -/
def established : Table := (run World.step .boot passiveHandshake).tab

end Laplus.Tcp
