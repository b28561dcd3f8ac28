/-
  Two decoders that answer each other's negotiation.

  Model. Two slots read what the other one writes, byte by byte, over two channels that
  keep the order (`Link`). A delivery takes the first byte of one channel, and what
  `read_pty` writes for it goes to the end of the other. The order of the deliveries is
  arbitrary. Nothing else is written to the channels.

  A WONT is answered with a WONT, but for option 1, so that one WONT goes to and fro for
  ever. Where no such WONT is answered (`NoWont`), every byte has a price: 1, and what the
  bytes cost that are written for it. A verb of which the option is still to come may cost
  up to 6 more (`pend`). A delivery lowers the price of what is in the channels.

  Proved:
  * `pot_append`: what is written adds its own price, wherever the other side stands.
  * `deliver_pot`: a delivery lowers the price.
  * `negotiation_ends`: without such a WONT, the number of deliveries and of triples is
    bounded by the number of bytes in the channels.
  * `negotiation_loops`: with it there is no bound.
-/
import SsrlApps.Telnetd.Modes

namespace SsrlApps.Telnetd

/-! ## The link -/

structure Link where
  left : Pty
  right : Pty
  toLeft : List UInt8
  toRight : List UInt8

/-- The side that reads a byte. -/
inductive Delivery
  | left
  | right

/-- The bytes that are written. -/
def written (sys : List SysCall) : List UInt8 :=
  sys.flatMap fun
    | .write _ buf => buf
    | _ => []

/-- What the slot does with the first byte of its channel. -/
def received (p : Pty) : List UInt8 → Pty × List SysCall
  | [] => (p, [])
  | value :: _ => ((readPty p (.byte value)).1, (readPty p (.byte value)).2.sys)

def linkStep (l : Link) : Delivery → Link
  | .left =>
    let r := received l.left l.toLeft
    { l with left := r.1, toLeft := l.toLeft.tail, toRight := l.toRight ++ written r.2 }
  | .right =>
    let r := received l.right l.toRight
    { l with right := r.1, toRight := l.toRight.tail, toLeft := l.toLeft ++ written r.2 }

/-- There is a byte to deliver. -/
def linkGuard (l : Link) : Delivery → Prop
  | .left => l.toLeft ≠ []
  | .right => l.toRight ≠ []

def link : Guarded Link Delivery := ⟨linkGuard, linkStep⟩

/-- A WILL, WONT, DO or DONT with its option. -/
def isTriple : SysCall → Bool
  | .write _ [c, _, _] => c == iacEsc
  | _ => false

/-- How many triples are sent by a delivery. -/
def triples (l : Link) : Delivery → Nat
  | .left => (received l.left l.toLeft).2.countP isTriple
  | .right => (received l.right l.toRight).2.countP isTriple

/-- A slot that stands behind a WONT reads no option but 1. -/
def NoWontAt (p : Pty) (inbox : List UInt8) : Prop :=
  p.iacMode = iacWont.toUInt32 → inbox.head? = some 1

def NoWont (l : Link) : Delivery → Prop
  | .left => NoWontAt l.left l.toLeft
  | .right => NoWontAt l.right l.toRight

/-! ## Prices -/

/-- A triple costs its three bytes and its answers. -/
def tripleWeight (verb option : UInt8) : Nat :=
  if verb = iacWill then (if option = 34 then 9 else if option = 31 then 9 else 6)
  else if verb = iacDo then (if option = 3 then 9 else if option = 1 then 3 else 6)
  else if verb = iacWont then (if option = 1 then 9 else 3)
  else 3

def bufWeight : List UInt8 → Nat
  | [_, verb, option] => tripleWeight verb option
  | buf => buf.length

def weight (bufs : List (List UInt8)) : Nat := (bufs.map bufWeight).sum

/-- What the answers to a byte cost. The answer to a WONT is not counted, except for that
    to option 1. -/
def fare (m : Mode) (value : UInt8) : Nat :=
  if m = .wont ∧ value ≠ 1 then 0 else weight (m.answer value)

/-- What the answer to the option may cost, behind a verb. -/
def pend : Mode → Nat
  | .will | .wont | .doing => 6
  | _ => 0

/-- The price of the bytes in a channel, for a slot in mode `m`. -/
def pot : Mode → List UInt8 → Nat
  | m, [] => pend m
  | m, value :: bs => 1 + fare m value + pot (m.next value) bs

theorem weight_cons (buf : List UInt8) (bufs : List (List UInt8)) :
    weight (buf :: bufs) = bufWeight buf + weight bufs := List.sum_cons

theorem fare_will (o : UInt8) : 3 + fare .will o = tripleWeight iacWill o := by
  show 3 + weight (Mode.answerWill o) = if o = 34 then 9 else if o = 31 then 9 else 6
  unfold Mode.answerWill
  split
  · rfl
  · split
    · rfl
    · rfl

theorem fare_do (o : UInt8) : 3 + fare .doing o = tripleWeight iacDo o := by
  show 3 + weight (Mode.answerDo o) = if o = 3 then 9 else if o = 1 then 3 else 6
  unfold Mode.answerDo
  split
  · rfl
  · split
    · rfl
    · next h =>
      show 3 + (if o = 1 then 9 else 3) = 6
      rw [if_neg h]

theorem fare_wont (o : UInt8) : 3 + fare .wont o = tripleWeight iacWont o := by
  show 3 + (if Mode.wont = .wont ∧ o ≠ 1 then 0 else weight (Mode.answerWont o)) =
    if o = 1 then 9 else 3
  by_cases h : o = 1
  · subst h
    rfl
  · rw [if_pos ⟨rfl, h⟩, if_neg h]

theorem tripleWeight_le (v o : UInt8) : 3 ≤ tripleWeight v o ∧ tripleWeight v o ≤ 9 := by
  unfold tripleWeight
  repeat' split
  all_goals decide

/-- Behind a verb the answer costs no more than is set aside for it. -/
theorem fare_le_pend {m : Mode} (hm : m = .will ∨ m = .wont ∨ m = .doing ∨ m = .dont)
    (o : UInt8) : fare m o ≤ pend m := by
  rcases hm with rfl | rfl | rfl | rfl
  · have h := fare_will o
    have hle := (tripleWeight_le iacWill o).2
    show fare .will o ≤ 6
    omega
  · have h := fare_wont o
    have hle := (tripleWeight_le iacWont o).2
    show fare .wont o ≤ 6
    omega
  · have h := fare_do o
    have hle := (tripleWeight_le iacDo o).2
    show fare .doing o ≤ 6
    omega
  · exact Nat.le_refl 0

/-- No answer costs more than the longest text. -/
theorem fare_le (m : Mode) (value : UInt8) : fare m value ≤ 40 := by
  have hreply : weight (Mode.reply value) ≤ 40 := by
    unfold Mode.reply
    repeat' split
    all_goals decide
  cases m with
  | idle => exact Nat.zero_le 40
  | iac => exact hreply
  | sb => exact Nat.zero_le 40
  | sbEsc => exact hreply
  | will => exact Nat.le_trans (fare_le_pend (Or.inl rfl) value) (by decide)
  | wont => exact Nat.le_trans (fare_le_pend (Or.inr (Or.inl rfl)) value) (by decide)
  | doing => exact Nat.le_trans (fare_le_pend (Or.inr (Or.inr (Or.inl rfl))) value) (by decide)
  | dont => exact Nat.zero_le 40

theorem pend_le (m : Mode) : pend m ≤ 6 := by
  cases m <;> decide

/-- The price of a channel is bounded by its length. -/
theorem pot_le (m : Mode) (bs : List UInt8) : pot m bs ≤ 41 * bs.length + 6 := by
  induction bs generalizing m with
  | nil => exact pend_le m
  | cons value bs ih =>
    have hfare := fare_le m value
    have htail := ih (m.next value)
    show 1 + fare m value + pot (m.next value) bs ≤ 41 * (bs.length + 1) + 6
    omega

/-! ## What is written -/

/-- If a buffer costs no more than `c` wherever the reader stands, it adds no more to a
    channel. -/
theorem pot_append {out : List UInt8} {c : Nat} (hout : ∀ m, pot m out ≤ pend m + c) (m : Mode)
    (bs : List UInt8) : pot m (bs ++ out) ≤ pot m bs + c := by
  induction bs generalizing m with
  | nil => exact hout m
  | cons value bs ih =>
    have htail := ih (m.next value)
    show 1 + fare m value + pot (m.next value) (bs ++ out) ≤
      1 + fare m value + pot (m.next value) bs + c
    omega

theorem pend_idle_iac {m : Mode} (h : m = .idle ∨ m = .iac) : pend m = 0 := by
  rcases h with rfl | rfl <;> rfl

/-- Outside of a command a byte leads nowhere, or behind an IAC. -/
theorem next_idle (value : UInt8) :
    Mode.next .idle value = .idle ∨ Mode.next .idle value = .iac := by
  by_cases h : value = iacEsc
  · exact Or.inr (if_pos h)
  · exact Or.inl (if_neg h)

theorem pot_idle_one (value : UInt8) : pot .idle [value] = 1 := by
  show 1 + 0 + pend (Mode.next .idle value) = 1
  rw [pend_idle_iac (next_idle value)]

/-- The verb and the option of a triple, where no command is open. -/
theorem pot_idle_two {v : UInt8} (hv : IsVerb v) (o : UInt8) : pot .idle [v, o] = 2 := by
  have hne : v ≠ iacEsc := by
    rcases hv with rfl | rfl | rfl | rfl <;> decide
  have hnext : Mode.next .idle v = .idle := if_neg hne
  show 1 + 0 + pot (Mode.next .idle v) [o] = 2
  rw [hnext, pot_idle_one]

/-- A triple that is read as such. -/
theorem pot_verb {v : UInt8} (hv : IsVerb v) (o : UInt8) :
    3 + fare (Mode.command v) o = tripleWeight v o ∧ (Mode.command v).next o = .idle := by
  rcases hv with rfl | rfl | rfl | rfl
  · exact ⟨rfl, rfl⟩
  · exact ⟨fare_do o, rfl⟩
  · exact ⟨fare_wont o, rfl⟩
  · exact ⟨fare_will o, rfl⟩

theorem command_reply {v : UInt8} (hv : IsVerb v) : Mode.reply v = [] := by
  rcases hv with rfl | rfl | rfl | rfl <;> rfl

/-- A triple costs its weight, wherever the reader stands. -/
theorem pot_triple {v : UInt8} (hv : IsVerb v) (o : UInt8) (m : Mode) :
    pot m [iacEsc, v, o] ≤ pend m + tripleWeight v o := by
  have hthree := (tripleWeight_le v o).1
  have htwo := pot_idle_two hv o
  obtain ⟨hfare, hnext⟩ := pot_verb hv o
  have hne : v ≠ iacEsc := by
    rcases hv with rfl | rfl | rfl | rfl <;> decide
  have hverb : ∀ m', (m' = .will ∨ m' = .wont ∨ m' = .doing ∨ m' = .dont) →
      pot m' [iacEsc, v, o] ≤ pend m' + tripleWeight v o := by
    intro m' hm'
    have hle := fare_le_pend hm' iacEsc
    have hidle : m'.next iacEsc = .idle := by
      rcases hm' with rfl | rfl | rfl | rfl <;> rfl
    show 1 + fare m' iacEsc + pot (m'.next iacEsc) [v, o] ≤ _
    rw [hidle, htwo]
    omega
  -- behind an IAC that was just read, inside a subnegotiation or not
  have hcommand : ∀ m', (m' = .iac ∨ m' = .sbEsc) →
      pot m' [v, o] = 2 + fare (Mode.command v) o := by
    intro m' hm'
    have hfree : fare m' v = 0 := by
      rcases hm' with rfl | rfl
      · show weight (Mode.reply v) = 0
        rw [command_reply hv]
        rfl
      · show weight (Mode.reply v) = 0
        rw [command_reply hv]
        rfl
    have hgo : m'.next v = Mode.command v := by
      rcases hm' with rfl | rfl
      · exact if_neg hne
      · exact if_neg hne
    show 1 + fare m' v + (1 + fare (m'.next v) o + pend ((m'.next v).next o)) = _
    rw [hfree, hgo, hnext]
    show 1 + 0 + (1 + fare (Mode.command v) o + 0) = _
    omega
  cases m with
  | idle =>
    show 1 + 0 + pot .iac [v, o] ≤ 0 + tripleWeight v o
    rw [hcommand .iac (Or.inl rfl)]
    omega
  | iac =>
    show 1 + 0 + pot .idle [v, o] ≤ 0 + tripleWeight v o
    rw [htwo]
    omega
  | sb =>
    show 1 + 0 + pot .sbEsc [v, o] ≤ 0 + tripleWeight v o
    rw [hcommand .sbEsc (Or.inr rfl)]
    omega
  | sbEsc =>
    have hpend : pend (Mode.next .sb o) = 0 := by
      show pend (if o = iacEsc then Mode.sbEsc else Mode.sb) = 0
      split <;> rfl
    have hgo : Mode.next .sb v = .sb := if_neg hne
    show 1 + 0 + (1 + 0 + pot (Mode.next .sb v) [o]) ≤ 0 + tripleWeight v o
    rw [hgo]
    show 1 + 0 + (1 + 0 + (1 + 0 + pend (Mode.next .sb o))) ≤ 0 + tripleWeight v o
    rw [hpend]
    omega
  | will => exact hverb .will (Or.inl rfl)
  | wont => exact hverb .wont (Or.inr (Or.inl rfl))
  | doing => exact hverb .doing (Or.inr (Or.inr (Or.inl rfl)))
  | dont => exact hverb .dont (Or.inr (Or.inr (Or.inr rfl)))

/-- A text has no commands in it. -/
def IsText (buf : List UInt8) : Prop := ∀ b ∈ buf, b.toNat < 239

theorem text_step {b : UInt8} (hb : b.toNat < 239) (m : Mode) :
    fare m b + pend (m.next b) ≤ pend m := by
  have hne : ∀ c : UInt8, 239 ≤ c.toNat → b ≠ c := by
    rintro c hc rfl
    omega
  have hesc : b ≠ iacEsc := hne _ (by decide)
  have hreply : Mode.reply b = [] := by
    unfold Mode.reply
    rw [if_neg (hne _ (by decide)), if_neg (hne _ (by decide)), if_neg (hne _ (by decide))]
  have hcommand : Mode.command b = .idle := by
    unfold Mode.command
    rw [if_neg (hne _ (by decide)), if_neg (hne _ (by decide)), if_neg (hne _ (by decide)),
      if_neg (hne _ (by decide)), if_neg (hne _ (by decide))]
  have hverb : ∀ m', (m' = .will ∨ m' = .wont ∨ m' = .doing ∨ m' = .dont) →
      fare m' b + pend (m'.next b) ≤ pend m' := by
    intro m' hm'
    have hle := fare_le_pend hm' b
    have hidle : m'.next b = .idle := by
      rcases hm' with rfl | rfl | rfl | rfl <;> rfl
    rw [hidle]
    exact hle
  cases m with
  | idle =>
    show 0 + pend (if b = iacEsc then Mode.iac else .idle) ≤ 0
    rw [if_neg hesc]
    decide
  | iac =>
    show weight (Mode.reply b) + pend (if b = iacEsc then Mode.idle else Mode.command b) ≤ 0
    rw [hreply, hcommand, if_neg hesc]
    decide
  | sb =>
    show 0 + pend (if b = iacEsc then Mode.sbEsc else .sb) ≤ 0
    rw [if_neg hesc]
    decide
  | sbEsc =>
    show weight (Mode.reply b) + pend (if b = iacEsc then Mode.sb else Mode.command b) ≤ 0
    rw [hreply, hcommand, if_neg hesc]
    decide
  | will => exact hverb .will (Or.inl rfl)
  | wont => exact hverb .wont (Or.inr (Or.inl rfl))
  | doing => exact hverb .doing (Or.inr (Or.inr (Or.inl rfl)))
  | dont => exact hverb .dont (Or.inr (Or.inr (Or.inr rfl)))

/-- A text costs its length, wherever the reader stands. -/
theorem pot_text {buf : List UInt8} (ht : IsText buf) (m : Mode) :
    pot m buf ≤ pend m + buf.length := by
  induction buf generalizing m with
  | nil => exact Nat.le_refl _
  | cons b buf ih =>
    have hstep := text_step (ht b List.mem_cons_self) m
    have htail := ih (fun c hc => ht c (List.mem_cons_of_mem b hc)) (m.next b)
    show 1 + fare m b + pot (m.next b) buf ≤ pend m + (buf.length + 1)
    omega

/-- What an endpoint writes: triples, and texts that are not as long as one. -/
def IsAnswer (buf : List UInt8) : Prop :=
  (∃ v o, IsVerb v ∧ buf = [iacEsc, v, o]) ∨ IsText buf ∧ bufWeight buf = buf.length

theorem isText_replies : IsText iacAytRsp ∧ IsText iacIpRsp ∧ IsText iacBrkRsp := by
  unfold IsText
  decide +kernel

/-- What is written for one byte: two answers at most. -/
structure Answers (bufs : List (List UInt8)) : Prop where
  length : bufs.length ≤ 2
  isAnswer : ∀ buf ∈ bufs, IsAnswer buf

theorem answers_nil : Answers [] := ⟨Nat.zero_le 2, fun _ h => nomatch h⟩

theorem answers_one {buf : List UInt8} (h : IsAnswer buf) : Answers [buf] :=
  ⟨Nat.le_succ 1, List.forall_mem_singleton.mpr h⟩

theorem answers_two {buf buf' : List UInt8} (h : IsAnswer buf) (h' : IsAnswer buf') :
    Answers [buf, buf'] :=
  ⟨Nat.le_refl 2, List.forall_mem_cons.mpr ⟨h, List.forall_mem_singleton.mpr h'⟩⟩

theorem isAnswer_triple {v : UInt8} (hv : IsVerb v) (o : UInt8) : IsAnswer [iacEsc, v, o] :=
  Or.inl ⟨v, o, hv, rfl⟩

theorem answers_reply (value : UInt8) : Answers (Mode.reply value) := by
  obtain ⟨hayt, hip, hbrk⟩ := isText_replies
  unfold Mode.reply
  split
  · exact answers_one (Or.inr ⟨hayt, rfl⟩)
  · split
    · exact answers_one (Or.inr ⟨hip, rfl⟩)
    · split
      · exact answers_one (Or.inr ⟨hbrk, rfl⟩)
      · exact answers_nil

theorem answers_answer (m : Mode) (value : UInt8) : Answers (m.answer value) := by
  have hwill : IsVerb iacWill := by decide
  have hwont : IsVerb iacWont := by decide
  have hdo : IsVerb iacDo := by decide
  have hdont : IsVerb iacDont := by decide
  cases m with
  | idle => exact answers_nil
  | iac => exact answers_reply value
  | sb => exact answers_nil
  | sbEsc => exact answers_reply value
  | will =>
    show Answers (Mode.answerWill value)
    unfold Mode.answerWill
    split
    · exact answers_two (isAnswer_triple hdont 34) (isAnswer_triple hdo 1)
    · split
      · exact answers_one (isAnswer_triple hdo 31)
      · exact answers_one (isAnswer_triple hdont value)
  | wont =>
    show Answers (Mode.answerWont value)
    unfold Mode.answerWont
    split
    · exact answers_one (isAnswer_triple hwill 1)
    · exact answers_one (isAnswer_triple hwont value)
  | doing =>
    show Answers (Mode.answerDo value)
    unfold Mode.answerDo
    split
    · exact answers_one (isAnswer_triple hwill 3)
    · split
      · exact answers_nil
      · exact answers_one (isAnswer_triple hwont value)
  | dont => exact answers_nil

theorem pot_isAnswer {buf : List UInt8} (h : IsAnswer buf) (m : Mode) :
    pot m buf ≤ pend m + bufWeight buf := by
  rcases h with ⟨v, o, hv, rfl⟩ | ⟨ht, hw⟩
  · exact pot_triple hv o m
  · rw [hw]
    exact pot_text ht m

/-- Answers cost the sum of their weights. -/
theorem pot_answers {bufs : List (List UInt8)} (h : ∀ buf ∈ bufs, IsAnswer buf) (m : Mode) :
    pot m bufs.flatten ≤ pend m + weight bufs := by
  induction bufs generalizing m with
  | nil => exact Nat.le_refl _
  | cons buf bufs ih =>
    have htail := ih fun b hb => h b (List.mem_cons_of_mem buf hb)
    have hhead := pot_isAnswer (h buf List.mem_cons_self) m
    have happend := pot_append htail m buf
    rw [List.flatten_cons, weight_cons]
    omega

/-! ## A delivery -/

theorem written_writes {bufs : List (List UInt8)} (socket : Int) :
    written (bufs.map (.write socket)) = bufs.flatten := by
  induction bufs with
  | nil => rfl
  | cons buf bufs ih =>
    show buf ++ written (bufs.map (.write socket)) = buf ++ bufs.flatten
    rw [ih]

theorem NoWontAt.fare_eq {p : Pty} {m : Mode} {value : UInt8} {bs : List UInt8}
    (h : NoWontAt p (value :: bs)) (hp : InMode p m) : fare m value = weight (m.answer value) := by
  refine if_neg fun hbad => ?_
  obtain ⟨rfl, hne⟩ := hbad
  exact hne (Option.some.inj (h hp))

/-- What a delivery does to both prices: one comes off, whatever is answered. -/
theorem deliver_pot {p : Pty} {m n : Mode} {value : UInt8} {bs : List UInt8}
    (hp : InMode p m) (hno : NoWontAt p (value :: bs)) (outbox : List UInt8) :
    pot (m.next value) bs + pot n (outbox ++ written (received p (value :: bs)).2) + 1 ≤
      pot m (value :: bs) + pot n outbox := by
  have hsys : (received p (value :: bs)).2 = (m.answer value).map (.write p.socket) :=
    (readPty_mode hp value).2
  have hout : pot n (outbox ++ written (received p (value :: bs)).2) ≤
      pot n outbox + weight (m.answer value) := by
    rw [hsys, written_writes]
    exact pot_append (pot_answers (answers_answer m value).isAnswer) n outbox
  have hfare := hno.fare_eq hp
  show _ ≤ 1 + fare m value + pot (m.next value) bs + pot n outbox
  omega

/-- No byte is answered with more than two triples. -/
theorem received_triples {p : Pty} {m : Mode} (hp : InMode p m) (inbox : List UInt8) :
    (received p inbox).2.countP isTriple ≤ 2 := by
  cases inbox with
  | nil => exact Nat.zero_le 2
  | cons value bs =>
    have hsys : (received p (value :: bs)).2 = (m.answer value).map (.write p.socket) :=
      (readPty_mode hp value).2
    rw [hsys]
    refine Nat.le_trans List.countP_le_length ?_
    rw [List.length_map]
    exact (answers_answer m value).length

/-! ## Runs -/

/-- The price of both channels. -/
structure Priced (l : Link) (c : Nat) : Prop where
  modes : ∃ m n, InMode l.left m ∧ InMode l.right n ∧ pot m l.toLeft + pot n l.toRight ≤ c

/-- A delivery sends no more than two triples, and leaves a price lower by one. -/
theorem link_step {l : Link} {c : Nat} {e : Delivery} (h : Priced l c) (hg : link.guard l e)
    (hno : NoWont l e) : triples l e ≤ 2 ∧ ∃ c', c' + 1 ≤ c ∧ Priced (link.step l e) c' := by
  obtain ⟨m, n, hm, hn, hc⟩ := h.modes
  cases e with
  | left =>
    refine ⟨received_triples hm l.toLeft, ?_⟩
    obtain ⟨value, bs, hin⟩ := List.exists_cons_of_ne_nil hg
    have hpot := deliver_pot (n := n) hm (hin ▸ hno : NoWontAt l.left (value :: bs)) l.toRight
    rw [hin] at hc
    refine ⟨c - 1, by omega, ⟨m.next value, n, ?_, hn, ?_⟩⟩
    · show InMode (received l.left l.toLeft).1 _
      rw [hin]
      exact (readPty_mode hm value).1
    · show pot (m.next value) l.toLeft.tail +
        pot n (l.toRight ++ written (received l.left l.toLeft).2) ≤ c - 1
      rw [hin]
      show pot (m.next value) bs + _ ≤ _
      omega
  | right =>
    refine ⟨received_triples hn l.toRight, ?_⟩
    obtain ⟨value, bs, hin⟩ := List.exists_cons_of_ne_nil hg
    have hpot := deliver_pot (n := m) hn (hin ▸ hno : NoWontAt l.right (value :: bs)) l.toLeft
    rw [hin] at hc
    refine ⟨c - 1, by omega, ⟨m, n.next value, hm, ?_, ?_⟩⟩
    · show InMode (received l.right l.toRight).1 _
      rw [hin]
      exact (readPty_mode hn value).1
    · show pot m (l.toLeft ++ written (received l.right l.toRight).2) +
        pot (n.next value) l.toRight.tail ≤ c - 1
      rw [hin]
      show _ + pot (n.next value) bs ≤ _
      omega

/-- A run is no longer than the price it starts with. -/
theorem link_run {l : Link} {c : Nat} {es : List Delivery} (h : Priced l c)
    (hes : link.Legal l es) (hno : link.Always NoWont l es) :
    es.length ≤ c ∧ link.total triples l es ≤ 2 * es.length :=
  Guarded.priced (P := Priced) (fun _ _ _ hp hg hn => link_step hp hg hn) h hes hno

theorem priced_start {p q : Pty} (hp : IsOpen p) (hq : IsOpen q) (a b : List UInt8) :
    Priced ⟨p, q, a, b⟩ (41 * (a.length + b.length) + 12) := by
  obtain ⟨m, hm⟩ := hp.inMode
  obtain ⟨n, hn⟩ := hq.inMode
  have ha := pot_le m a
  have hb := pot_le n b
  refine ⟨m, n, hm, hn, ?_⟩
  show pot m a + pot n b ≤ _
  omega

/-- Only empty channels stop the deliveries. -/
theorem link_stuck (l : Link) :
    (∀ e, ¬link.guard l e) ↔ l.toLeft = [] ∧ l.toRight = [] := by
  constructor
  · intro h
    exact ⟨not_not.mp (h .left), not_not.mp (h .right)⟩
  · rintro ⟨hleft, hright⟩ e
    cases e with
    | left => exact fun hg => hg hleft
    | right => exact fun hg => hg hright

/-- Where no side reads a WONT for an option other than 1, the deliveries come to an end,
    in whichever order they are made: they and the triples they send are bounded by the
    bytes that were in the channels, and the last one leaves both channels empty. -/
theorem negotiation_ends {p q : Pty} (hp : IsOpen p) (hq : IsOpen q) (a b : List UInt8)
    {es : List Delivery} (hes : link.Legal ⟨p, q, a, b⟩ es)
    (hno : link.Always NoWont ⟨p, q, a, b⟩ es) :
    es.length ≤ 41 * (a.length + b.length) + 12 ∧
      link.total triples ⟨p, q, a, b⟩ es ≤ 2 * (41 * (a.length + b.length) + 12) ∧
      ((∀ e, ¬link.guard (link.exec ⟨p, q, a, b⟩ es) e) ↔
        (link.exec ⟨p, q, a, b⟩ es).toLeft = [] ∧ (link.exec ⟨p, q, a, b⟩ es).toRight = []) := by
  obtain ⟨hlen, htotal⟩ := link_run (priced_start hp hq a b) hes hno
  refine ⟨hlen, ?_, link_stuck _⟩
  omega

/-- A slot that was opened and has read nothing. -/
def newPty : Pty := openPty { zeroPty with socket := 7 } ⟨0, 0, 4⟩

theorem newPty_isOpen : IsOpen newPty := isOpen_openPty _ _

/-- `IAC WILL 31` is answered with `IAC DO 31`, that with `IAC WONT 31`: six deliveries. -/
theorem negotiation_ends_naws :
    let es : List Delivery := [.left, .left, .left, .right, .right, .right]
    es.length ≤ 41 * (3 + 0) + 12 ∧
      link.total triples ⟨newPty, newPty, [iacEsc, iacWill, 31], []⟩ es ≤
        2 * (41 * (3 + 0) + 12) ∧
      ((∀ e, ¬link.guard (link.exec ⟨newPty, newPty, [iacEsc, iacWill, 31], []⟩ es) e) ↔
        (link.exec ⟨newPty, newPty, [iacEsc, iacWill, 31], []⟩ es).toLeft = [] ∧
        (link.exec ⟨newPty, newPty, [iacEsc, iacWill, 31], []⟩ es).toRight = []) := by
  refine negotiation_ends newPty_isOpen newPty_isOpen [iacEsc, iacWill, 31] [] ?_ ?_
  · simp only [Guarded.Legal]
    refine ⟨?_, ?_, ?_, ?_, ?_, ?_, trivial⟩ <;> exact List.cons_ne_nil _ _
  · refine ⟨?_, ?_, ?_, ?_, ?_, ?_, trivial⟩ <;> exact fun h => nomatch h

/-! ## The loop -/

/-- `IAC WONT 5` on its way to the left. -/
def wontLink : Link := ⟨newPty, newPty, [iacEsc, iacWont, 5], []⟩

/-- To the right and back. -/
def roundTrip : List Delivery := [.left, .left, .left, .right, .right, .right]

theorem roundTrip_exec : link.exec wontLink roundTrip = wontLink := rfl

theorem roundTrip_legal : link.Legal wontLink roundTrip := by
  refine ⟨?_, ?_, ?_, ?_, ?_, ?_, trivial⟩ <;> exact List.cons_ne_nil _ _

theorem roundTrip_triples : link.total triples wontLink roundTrip = 2 := rfl

/-- The WONT goes to and fro: no bound on the triples that depends on the contents of the
    channels holds for every order of deliveries. -/
theorem negotiation_loops :
    ¬∃ bound : List UInt8 → List UInt8 → Nat, ∀ p q, IsOpen p → IsOpen q → ∀ a b es,
      link.Legal ⟨p, q, a, b⟩ es → link.total triples ⟨p, q, a, b⟩ es ≤ bound a b := by
  rintro ⟨bound, hbound⟩
  obtain ⟨hlegal, -, htotal⟩ := Guarded.repeated roundTrip_legal roundTrip_exec triples
    (bound [iacEsc, iacWont, 5] [] + 1)
  have hle : link.total triples wontLink _ ≤ bound [iacEsc, iacWont, 5] [] :=
    hbound newPty newPty newPty_isOpen newPty_isOpen _ _ _ hlegal
  rw [htotal, roundTrip_triples] at hle
  omega

end SsrlApps.Telnetd
