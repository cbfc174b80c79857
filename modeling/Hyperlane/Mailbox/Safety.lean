/-
The mailbox under re-entrancy.

Foreign code runs in the middle of `process` and of `dispatch`, may call both again, and may revert. What is recorded
before the foreign calls decides: a delivery before `verify` and `handle`, a nonce before the hooks.

- `Step`: what a whole frame does to the mailbox, whatever it calls.
- `process_ensures`, `dispatch_ensures`: every operation is such a step if its foreign calls are.
- `mailbox_safety`: every list of transactions.

A delivery is stored as a `uint48` block number and a message counts as delivered if that is not zero. In a block whose
number is a multiple of 2^48 nothing would be remembered (`delivered_twice`).
-/
import Hyperlane.Core.Outcome
import Hyperlane.Mailbox.Operations

namespace Hyperlane.Mailbox

open Hyperlane.Bytes Hyperlane.Reentrancy

variable {Hash : Type} {c : Config Hash} {d : Address} {s s' : Storage Hash}

/-! ## Histories -/

def processIds (h : List (Event Hash)) : List Hash :=
  h.filterMap fun
    | .ProcessId id => some id
    | _ => none

def dispatched (h : List (Event Hash)) : List (List UInt8) :=
  h.filterMap fun
    | .Dispatch _ _ _ message => some message
    | _ => none

def dispatchIds (h : List (Event Hash)) : List Hash :=
  h.filterMap fun
    | .DispatchId id => some id
    | _ => none

/-- the ids of the messages `handle` was called for -/
def handledIds (c : Config Hash) (h : List (Event Hash)) : List Hash :=
  h.filterMap fun
    | .handle message _ _ _ _ _ => some (c.keccak message)
    | _ => none

/-- the ids of the messages whose `process` returned -/
def processedIds (c : Config Hash) (h : List (Event Hash)) : List Hash :=
  h.filterMap fun
    | .processed message => some (c.keccak message)
    | _ => none

/-- the default ISM after a history: the one set last -/
def defaultIsmOf (defaultIsm : Address) (h : List (Event Hash)) : Address :=
  h.foldl (fun ism e => match e with
    | .DefaultIsmSet module => module
    | _ => ism) defaultIsm

theorem defaultIsmOf_append (defaultIsm : Address) (a b : List (Event Hash)) :
    defaultIsmOf defaultIsm (a ++ b) = defaultIsmOf (defaultIsmOf defaultIsm a) b :=
  List.foldl_append

@[simp]
theorem processIds_append (a b : List (Event Hash)) : processIds (a ++ b) = processIds a ++ processIds b :=
  List.filterMap_append

@[simp]
theorem dispatched_append (a b : List (Event Hash)) : dispatched (a ++ b) = dispatched a ++ dispatched b :=
  List.filterMap_append

@[simp]
theorem dispatchIds_append (a b : List (Event Hash)) : dispatchIds (a ++ b) = dispatchIds a ++ dispatchIds b :=
  List.filterMap_append

@[simp]
theorem handledIds_append (a b : List (Event Hash)) : handledIds c (a ++ b) = handledIds c a ++ handledIds c b :=
  List.filterMap_append

@[simp]
theorem processedIds_append (a b : List (Event Hash)) : processedIds c (a ++ b) = processedIds c a ++ processedIds c b :=
  List.filterMap_append

/-- what precedes a call of `handle`: the recipient of the message was asked for its ISM, and the one it named, or the
default ISM of that time, was called for the message and returned true -/
structure Warranted (c : Config Hash) (defaultIsm : Address) (before : List (Event Hash)) (message : List UInt8)
    (recipient : Address) (origin : UInt32) (sender : Bytes32) (messageBody : List UInt8) : Prop where
  recipient_eq : Message.recipientAddress message = .ok recipient
  origin_eq : Message.origin message = some origin
  sender_eq : Message.sender message = some sender
  body_eq : Message.body message = some messageBody
  accepted : ∃ pre mid answer ism metadata, recipientIsm (defaultIsmOf defaultIsm pre) answer = .ok ism ∧ before =
    pre ++ [.ismOf recipient answer, .Process origin sender recipient, .ProcessId (c.keccak message)] ++ mid ++
      [.verified ism metadata message true]

/-- every call of `handle` is warranted by what precedes it -/
def HandlesVerified (c : Config Hash) (defaultIsm : Address) (h : List (Event Hash)) : Prop :=
  ∀ before message recipient value origin sender messageBody,
    before ++ [.handle message recipient value origin sender messageBody] <+: h →
      Warranted c defaultIsm before message recipient origin sender messageBody

theorem HandlesVerified.concat {h : List (Event Hash)} (hh : HandlesVerified c d h) {e : Event Hash}
    (he : ∀ message recipient value origin sender messageBody, e = .handle message recipient value origin sender messageBody →
      Warranted c d h message recipient origin sender messageBody) : HandlesVerified c d (h ++ [e]) := by
  intro before message recipient value origin sender messageBody hfirst
  rcases List.prefix_concat_iff.1 hfirst with heq | hfirst
  · obtain ⟨rfl, hlast⟩ := List.append_inj' heq rfl
    exact he _ _ _ _ _ _ (List.singleton_inj.1 hlast).symm
  · exact hh _ _ _ _ _ _ _ hfirst

/-- what is no call of `handle` needs no warrant -/
theorem HandlesVerified.append {h : List (Event Hash)} (hh : HandlesVerified c d h) {new : List (Event Hash)}
    (hnew : handledIds c new = []) : HandlesVerified c d (h ++ new) := by
  induction new generalizing h with
  | nil => rwa [List.append_nil]
  | cons e new ih =>
    rw [handledIds, List.filterMap_eq_nil_iff] at hnew
    rw [List.append_cons]
    refine ih (hh.concat fun message recipient value origin sender messageBody he => ?_) ?_
    · exact nomatch he ▸ hnew e List.mem_cons_self
    · exact List.filterMap_eq_nil_iff.2 fun e' he' => hnew e' (List.mem_cons_of_mem e he')

variable [DecidableEq Hash]

/-- in the history of whole calls, every delivery that was recorded was handled and returned -/
def Balanced (c : Config Hash) (new : List (Event Hash)) : Prop :=
  ∀ id, (handledIds c new).count id = (processIds new).count id ∧
    (processedIds c new).count id = (processIds new).count id

theorem Balanced.append {a b : List (Event Hash)} (ha : Balanced c a) (hb : Balanced c b) : Balanced c (a ++ b) := by
  intro id
  simp only [handledIds_append, processedIds_append, processIds_append, List.count_append]
  exact ⟨congrArg₂ (· + ·) (ha id).1 (hb id).1, congrArg₂ (· + ·) (ha id).2 (hb id).2⟩

/-- the events of `process` before `verify`, before `handle` and at the end -/
def opening (answer : IsmAnswer) (m : Inbound Hash) : List (Event Hash) :=
  [.ismOf m.recipient answer, .Process m.origin m.sender m.recipient, .ProcessId m.id]

def delivering (m : Inbound Hash) (value : ℕ) (metadata message : List UInt8) : List (Event Hash) :=
  [.verified m.ism metadata message true, .handle message m.recipient value m.origin m.sender m.body]

/-- the history of a `process`, around those of `verify` and `handle` -/
theorem Balanced.process {v h : List (Event Hash)} (hv : Balanced c v) (hh : Balanced c h) {m : Inbound Hash}
    (answer : IsmAnswer) (value : ℕ) (metadata : List UInt8) {message : List UInt8} (hid : m.id = c.keccak message) :
    Balanced c (opening answer m ++ v ++ delivering m value metadata message ++ h ++ [.processed message]) := by
  intro id
  obtain ⟨hv1, hv2⟩ := hv id
  obtain ⟨hh1, hh2⟩ := hh id
  have hopen : handledIds c (opening answer m) = [] ∧ processIds (opening answer m) = [m.id] ∧
      processedIds c (opening answer m) = [] := ⟨rfl, rfl, rfl⟩
  have hdeliver : handledIds c (delivering m value metadata message) = [c.keccak message] ∧
      processIds (delivering m value metadata message) = [] ∧
      processedIds c (delivering m value metadata message) = [] := ⟨rfl, rfl, rfl⟩
  have hend : handledIds c [.processed message] = [] ∧ processIds ([.processed message] : List (Event Hash)) = [] ∧
      processedIds c [.processed message] = [c.keccak message] := ⟨rfl, rfl, rfl⟩
  simp only [handledIds_append, processedIds_append, processIds_append, List.count_append, hopen, hdeliver, hend, hid, hv1,
    hv2, hh1, hh2, List.count_nil]
  constructor <;> ring

/-! ## The invariant -/

structure Inv (c : Config Hash) (d : Address) (s : Storage Hash) : Prop where
  recorded : ∀ id, (processIds s.history).count id = if s.delivered id then 1 else 0
  numbered : (dispatched s.history).map Message.nonce = (List.range s.nonce.toNat).map fun n => some (UInt32.ofNat n)
  identified : dispatchIds s.history = (dispatched s.history).map c.keccak
  verified : HandlesVerified c d s.history
  defaultIsm_eq : s.defaultIsm = defaultIsmOf d s.history

/-- the nonces of the dispatches, in the order of their events -/
theorem Inv.nonces (h : Inv c d s) :
    (dispatched s.history).map (fun m => (Message.nonce m).map UInt32.toNat) = (List.range s.nonce.toNat).map some := by
  have hmap := congrArg (List.map (Option.map UInt32.toNat)) h.numbered
  rw [List.map_map, List.map_map] at hmap
  refine hmap.trans (List.map_congr_left fun n hn => ?_)
  have hlt : n < 2 ^ 32 := (List.mem_range.1 hn).trans s.nonce.toNat_lt
  exact congrArg some (UInt32.toNat_ofNat_of_lt hlt)

/-- what a whole frame does to the mailbox -/
structure Step (c : Config Hash) (d : Address) (s s' : Storage Hash) : Prop where
  grows : ∃ new, s'.history = s.history ++ new ∧ Balanced c new
  inv : Inv c d s → Inv c d s'

theorem Step.refl (s : Storage Hash) : Step c d s s :=
  ⟨⟨[], (List.append_nil _).symm, fun _ => ⟨rfl, rfl⟩⟩, id⟩

theorem Step.trans {s1 s2 s3 : Storage Hash} (h1 : Step c d s1 s2) (h2 : Step c d s2 s3) : Step c d s1 s3 := by
  obtain ⟨new1, he1, hb1⟩ := h1.grows
  obtain ⟨new2, he2, hb2⟩ := h2.grows
  exact ⟨⟨new1 ++ new2, by rw [he2, he1, List.append_assoc], hb1.append hb2⟩, fun h => h2.inv (h1.inv h)⟩

/-- events without dispatches and calls of `handle` -/
theorem Inv.append {new : List (Event Hash)} (h : Inv c d s) (hhistory : s'.history = s.history ++ new)
    (hnonce : s'.nonce = s.nonce) (hdispatched : dispatched new = []) (hids : dispatchIds new = [])
    (hhandled : handledIds c new = []) (hdefault : s'.defaultIsm = defaultIsmOf s.defaultIsm new)
    (hrecorded : ∀ id, (processIds s'.history).count id = if s'.delivered id then 1 else 0) : Inv c d s' := by
  refine ⟨hrecorded, ?_, ?_, ?_, ?_⟩
  · rw [hhistory, dispatched_append, hdispatched, List.append_nil, hnonce]
    exact h.numbered
  · rw [hhistory, dispatchIds_append, hids, dispatched_append, hdispatched, List.append_nil, List.append_nil]
    exact h.identified
  · rw [hhistory]
    exact h.verified.append hhandled
  · rw [hhistory, defaultIsmOf_append, ← h.defaultIsm_eq]
    exact hdefault

/-- events without deliveries, dispatches and calls of `handle` -/
theorem Inv.record {new : List (Event Hash)} (h : Inv c d s) (hprocess : processIds new = []) (hdispatched : dispatched new = [])
    (hids : dispatchIds new = []) (hhandled : handledIds c new = [])
    (hdefault : defaultIsmOf s.defaultIsm new = s.defaultIsm) : Inv c d (s.record new) := by
  refine h.append rfl rfl hdispatched hids hhandled hdefault.symm fun id => ?_
  have hhistory : (s.record new).history = s.history ++ new := rfl
  rw [hhistory, processIds_append, hprocess, List.append_nil]
  exact h.recorded id

/-- a warranted call of `handle` -/
theorem Inv.handle {message messageBody : List UInt8} {recipient : Address} {value : ℕ} {origin : UInt32} {sender : Bytes32}
    (h : Inv c d s) (hwarranted : Warranted c d s.history message recipient origin sender messageBody) :
    Inv c d (s.record [.handle message recipient value origin sender messageBody]) := by
  have hhistory : (s.record [.handle message recipient value origin sender messageBody]).history =
    s.history ++ [.handle message recipient value origin sender messageBody] := rfl
  refine ⟨fun id => ?_, ?_, ?_, ?_, ?_⟩
  · rw [hhistory, processIds_append]
    exact (congrArg _ (List.append_nil _)).trans (h.recorded id)
  · rw [hhistory, dispatched_append]
    exact (congrArg _ (List.append_nil _)).trans h.numbered
  · rw [hhistory, dispatched_append, dispatchIds_append]
    exact (List.append_nil _).trans (h.identified.trans (congrArg _ (List.append_nil _).symm))
  · rw [hhistory]
    refine h.verified.concat fun _ _ _ _ _ _ he => ?_
    cases he
    exact hwarranted
  · rw [hhistory, defaultIsmOf_append, ← h.defaultIsm_eq]
    rfl

/-! ## Processing -/

theorem calldata_ok {α : Type} {o : Option α} {a : α} (h : calldata o = .ok a) : o = some a := by
  cases o with
  | none => exact nomatch h
  | some b => exact congrArg some (Except.ok.inj h)

omit [DecidableEq Hash] in
theorem processChecks_spec {message : List UInt8} {answer : IsmAnswer} {m : Inbound Hash}
    (h : processChecks c s message answer = .ok m) :
    m.id = c.keccak message ∧ s.delivered m.id = false ∧ recipientIsm s.defaultIsm answer = .ok m.ism ∧
      Message.recipientAddress message = .ok m.recipient ∧
      Message.origin message = some m.origin ∧ Message.sender message = some m.sender ∧
      Message.body message = some m.body := by
  unfold processChecks at h
  simp only [Outcome.bind_eq_ok] at h
  obtain ⟨-, -, -, -, -, -, -, -, _, hnew, recipient, hrecipient, ism, hism, origin, horigin, sender, hsender,
    messageBody, hbody, hm⟩ := h
  obtain rfl := Except.ok.inj hm
  exact ⟨rfl, of_decide_eq_true (require_eq_ok.1 hnew), hism, hrecipient, calldata_ok horigin, calldata_ok hsender,
    calldata_ok hbody⟩

theorem processEffects_inv {blockNumber : ℕ} (hblock : blockNumber % 2 ^ 48 ≠ 0) (msgSender : Address)
    (answer : IsmAnswer) {m : Inbound Hash}
    (hm : s.delivered m.id = false) (h : Inv c d s) : Inv c d (processEffects s blockNumber msgSender answer m) := by
  have hother : ∀ id, id ≠ m.id → (processEffects s blockNumber msgSender answer m).delivered id = s.delivered id := by
    intro id hid
    simp only [Storage.delivered, processEffects, Function.update_of_ne hid]
  have hself : (processEffects s blockNumber msgSender answer m).delivered m.id = true := by
    simp only [Storage.delivered, processEffects, Function.update_self]
    exact decide_eq_true (Nat.pos_of_ne_zero hblock)
  have hhistory : (processEffects s blockNumber msgSender answer m).history = s.history ++ opening answer m := rfl
  refine h.append hhistory rfl rfl rfl rfl rfl fun id => ?_
  rw [hhistory, processIds_append, List.count_append, h.recorded id]
  by_cases hid : id = m.id
  · rw [hid, hself, hm]
    simp [opening, processIds]
  · rw [hother id hid]
    simp [opening, processIds, Ne.symm hid]

/-- `verify` has accepted the message -/
theorem delivering_inv {m : Inbound Hash} {metadata message : List UInt8} {answer : IsmAnswer} {s0 : Storage Hash}
    {mid : List (Event Hash)} (value : ℕ) (hm : processChecks c s0 message answer = .ok m) (h0 : Inv c d s0)
    (hhistory : s.history = s0.history ++ opening answer m ++ mid) (h : Inv c d s) :
    Inv c d (s.record (delivering m value metadata message)) := by
  obtain ⟨hid, -, hism, hrecipient, horigin, hsender, hbody⟩ := processChecks_spec hm
  have haccepted : Inv c d (s.record [.verified m.ism metadata message true]) := h.record rfl rfl rfl rfl rfl
  have hwarranted : Warranted c d (s.record [.verified m.ism metadata message true]).history message m.recipient m.origin
      m.sender m.body := by
    refine ⟨hrecipient, horigin, hsender, hbody, s0.history, mid, answer, m.ism, metadata, ?_, ?_⟩
    · rw [← h0.defaultIsm_eq]
      exact hism
    · rw [← hid]
      exact congrArg (· ++ [_]) hhistory
  have hsplit : s.record (delivering m value metadata message) =
      (s.record [.verified m.ism metadata message true]).record
        [.handle message m.recipient value m.origin m.sender m.body] := by
    rw [Storage.record, Storage.record, Storage.record, delivering, List.append_assoc]
    rfl
  rw [hsplit]
  exact haccepted.handle hwarranted

theorem process_ensures {blockNumber : ℕ} (hblock : blockNumber % 2 ^ 48 ≠ 0) (msgSender : Address) (value : ℕ)
    (metadata message : List UInt8) (answer : IsmAnswer) (s : Storage Hash) :
    (process c blockNumber msgSender value metadata message answer).Ensures (Step c d) (Step c d s) s := by
  intro s1 hs1 s2 h12 ok
  cases hm : processChecks c s message answer with
  | error e =>
    simp only [hm] at hs1
    exact nomatch hs1
  | ok m =>
    simp only [hm] at hs1 ⊢
    obtain rfl := Option.some.inj hs1
    obtain ⟨hid, hnew, -⟩ := processChecks_spec hm
    intro s3 hs3 s4 h34 _ s5 hs5
    cases ok with
    | false => exact nomatch hs3
    | true =>
      obtain rfl := Option.some.inj hs3
      obtain rfl := Option.some.inj hs5
      obtain ⟨mid, hmid, hmidBalanced⟩ := h12.grows
      obtain ⟨tail, htail, htailBalanced⟩ := h34.grows
      have hhistory : s2.history = s.history ++ opening answer m ++ mid := hmid
      refine ⟨⟨_, ?_, hmidBalanced.process htailBalanced answer value metadata hid⟩, fun hinv => ?_⟩
      · simp only [Storage.record] at htail ⊢
        rw [htail, hhistory]
        simp only [delivering, List.append_assoc]
      · have h1 := processEffects_inv hblock msgSender answer hnew hinv
        exact (h34.inv (delivering_inv value hm hinv hhistory (h12.inv h1))).record rfl rfl rfl rfl rfl

/-! ## Dispatching -/

theorem nonce_formatMessage (version : UInt8) (nonce origin : UInt32) (sender : Bytes32) (destination : UInt32)
    (recipient : Bytes32) (messageBody : List UInt8) :
    Message.nonce (Message.formatMessage version nonce origin sender destination recipient messageBody) = some nonce := by
  apply uint32At_of_slice
  unfold Message.formatMessage
  simp only [List.append_assoc]
  exact slice_segment [version] _ _ rfl (by rw [be_length]; rfl)

theorem dispatchEffects_step {a : DispatchArgs} (h : dispatchEffects c a s = some s') : Step c d s s' := by
  unfold dispatchEffects at h
  split at h
  next hmax =>
    obtain rfl := Option.some.inj h
    refine ⟨⟨_, rfl, fun _ => ⟨rfl, rfl⟩⟩, fun hinv => ⟨fun id => ?_, ?_, ?_, hinv.verified.append rfl, ?_⟩⟩
    · rw [processIds_append]
      exact (congrArg _ (List.append_nil _)).trans (hinv.recorded id)
    · have hsucc : (s.nonce + 1).toNat = s.nonce.toNat + 1 := by
        rw [UInt32.toNat_add]
        exact Nat.mod_eq_of_lt hmax
      rw [hsucc, List.range_succ, List.map_append, dispatched_append, List.map_append, hinv.numbered]
      refine congrArg _ ?_
      simp only [dispatched, List.filterMap_cons, List.filterMap_nil, List.map_cons, List.map_nil, buildMessage,
        nonce_formatMessage, UInt32.ofNat_toNat]
    · rw [dispatched_append, dispatchIds_append, List.map_append, hinv.identified]
      rfl
    · rw [defaultIsmOf_append, ← hinv.defaultIsm_eq]
      rfl
  next => exact nomatch h

theorem record_step {new : List (Event Hash)} (hprocess : processIds new = []) (hdispatched : dispatched new = [])
    (hids : dispatchIds new = []) (hhandled : handledIds c new = []) (hprocessed : processedIds c new = [])
    (hdefault : defaultIsmOf s.defaultIsm new = s.defaultIsm) : Step c d s (s.record new) := by
  refine ⟨⟨new, rfl, fun id => ?_⟩, fun h => h.record hprocess hdispatched hids hhandled hdefault⟩
  rw [hprocess, hhandled, hprocessed]
  exact ⟨rfl, rfl⟩

theorem dispatch_ensures (a : DispatchArgs) (s : Storage Hash) :
    (dispatch c a).Ensures (Step c d) (Step c d s) s := by
  intro s1 hs1 s2 h12 _ s3 hs3 s4 h34 _ s5 hs5
  obtain ⟨se, heffects, hs1⟩ := Option.bind_eq_some_iff.1 hs1
  obtain ⟨value, -, hs1⟩ := Option.bind_eq_some_iff.1 hs1
  obtain rfl := Option.some.inj hs1
  obtain rfl := Option.some.inj hs3
  obtain rfl := Option.some.inj hs5
  have hfirst : Step c d s s2 := ((dispatchEffects_step heffects).trans (record_step rfl rfl rfl rfl rfl rfl)).trans h12
  exact (hfirst.trans (record_step rfl rfl rfl rfl rfl rfl)).trans h34

/-! ## Settings -/

omit [DecidableEq Hash] in
/-- settings touch neither nonces nor deliveries -/
theorem set_spec {msgSender : Address} {setting : Setting} (h : set msgSender setting s = .ok s') :
    s'.deliveries = s.deliveries ∧ s'.nonce = s.nonce ∧ ∃ new, s'.history = s.history ++ new ∧
      s'.defaultIsm = defaultIsmOf s.defaultIsm new ∧ processIds new = [] ∧ dispatched new = [] ∧
      dispatchIds new = [] ∧ handledIds c new = [] ∧ processedIds c new = [] := by
  obtain ⟨-, -, h⟩ := Outcome.bind_eq_ok.1 h
  cases setting with
  | transferOwnership newOwner =>
    obtain ⟨-, -, h⟩ := Outcome.bind_eq_ok.1 h
    obtain rfl := Except.ok.inj h
    exact ⟨rfl, rfl, [], (List.append_nil _).symm, rfl, rfl, rfl, rfl, rfl, rfl⟩
  | _ =>
    obtain ⟨-, -, h⟩ := Outcome.bind_eq_ok.1 h
    obtain rfl := Except.ok.inj h
    exact ⟨rfl, rfl, _, rfl, rfl, rfl, rfl, rfl, rfl, rfl⟩

theorem set_step {msgSender : Address} {setting : Setting} (h : set msgSender setting s = .ok s') : Step c d s s' := by
  obtain ⟨hdeliveries, hnonce, new, hhistory, hdefault, hprocess, hdispatched, hids, hhandled, hprocessed⟩ :=
    set_spec (c := c) h
  have hdelivered : ∀ id, s'.delivered id = s.delivered id := fun id => by
    rw [Storage.delivered, Storage.delivered, hdeliveries]
  refine ⟨⟨new, hhistory, fun id => ?_⟩, fun hinv => ?_⟩
  · rw [hprocess, hhandled, hprocessed]
    exact ⟨rfl, rfl⟩
  · refine hinv.append hhistory hnonce hdispatched hids hhandled hdefault fun id => ?_
    rw [hhistory, processIds_append, hprocess, List.append_nil, hdelivered]
    exact hinv.recorded id

/-! ## Runs -/

theorem body_ensures {blockNumber : ℕ} (hblock : blockNumber % 2 ^ 48 ≠ 0) (op : Op) (s : Storage Hash) :
    (body c blockNumber op).Ensures (Step c d) (Step c d s) s := by
  cases op with
  | process msgSender value metadata message answer => exact process_ensures hblock msgSender value metadata message answer s
  | dispatch args => exact dispatch_ensures args s
  | set msgSender setting =>
    intro s' hs'
    cases hset : set msgSender setting s with
    | error e =>
      simp only [hset] at hs'
      exact nomatch hs'
    | ok s'' =>
      simp only [hset] at hs'
      obtain rfl := Option.some.inj hs'
      exact set_step hset

theorem initial_inv (owner defaultIsm defaultHook requiredHook : Address) :
    Inv c defaultIsm (Storage.initial owner defaultIsm defaultHook requiredHook) :=
  ⟨fun _ => rfl, rfl, rfl, fun _ _ _ _ _ _ _ h => absurd (List.prefix_nil.1 h) (by simp), rfl⟩

/-- **The mailbox is safe under re-entrancy.** In the history that survives any transactions, `handle` was called at most
once for a message id, each time after the ISM that its recipient named, or else the default one, accepted the message; the
messages that count as delivered are those whose `process` returned; and the dispatches carry the nonces 0, 1, 2, ... in
the order of their events. -/
theorem mailbox_safety (c : Config Hash) (owner defaultIsm defaultHook requiredHook : Address) (txs : Transactions)
    (hblock : ∀ tx ∈ txs, tx.1 % 2 ^ 48 ≠ 0) :
    let s := run (body c) (Storage.initial owner defaultIsm defaultHook requiredHook) txs
    (∀ id, (handledIds c s.history).count id ≤ 1) ∧ HandlesVerified c defaultIsm s.history ∧
    (∀ id, s.delivered id = true ↔ id ∈ processedIds c s.history) ∧
    (dispatched s.history).map (fun m => (Message.nonce m).map UInt32.toNat) = (List.range s.nonce.toNat).map some ∧
    dispatchIds s.history = (dispatched s.history).map c.keccak ∧
    (Function.Injective c.keccak → (dispatchIds s.history).Nodup) := by
  intro s
  have hstep : Step c defaultIsm (Storage.initial owner defaultIsm defaultHook requiredHook) s :=
    run_guarantee Step.refl Step.trans txs (fun tx htx op s => body_ensures (hblock tx htx) op s) _
  have hinv : Inv c defaultIsm s := hstep.inv (initial_inv owner defaultIsm defaultHook requiredHook)
  have hbalanced : Balanced c s.history := by
    obtain ⟨new, hnew, hbalanced⟩ := hstep.grows
    rw [hnew]
    exact hbalanced
  refine ⟨fun id => ?_, hinv.verified, fun id => ?_, hinv.nonces, hinv.identified, fun hinj => ?_⟩
  · rw [(hbalanced id).1, hinv.recorded id]
    split
    · exact le_rfl
    · exact Nat.zero_le 1
  · rw [← List.count_pos_iff, (hbalanced id).2, hinv.recorded id]
    cases s.delivered id <;> simp
  · rw [hinv.identified]
    have hnodup : ((dispatched s.history).map fun m => (Message.nonce m).map UInt32.toNat).Nodup := by
      rw [hinv.nonces]
      exact List.nodup_range.map (Option.some_injective _)
    exact List.Nodup.map hinj hnodup.of_map

section Traces

/-- a mailbox whose ids are the messages themselves -/
def plainConfig : Config (List UInt8) := ⟨1, id⟩

def someAddress (b : UInt8) : Address := ⟨List.replicate 20 b, List.length_replicate⟩

def inboundMessage : List UInt8 :=
  Message.formatMessage VERSION 0 2 (TypeCasts.addressToBytes32 (someAddress 9)) 1 (TypeCasts.addressToBytes32 (someAddress 7)) []

def processOp : Op := .process (someAddress 5) 0 [] inboundMessage .silent

def dispatchOp : Op := .dispatch ⟨someAddress 7, 0, 2, TypeCasts.addressToBytes32 (someAddress 9), [], [], zeroAddress, some 0⟩

/-- `handle` processes the message once more, in vain, and dispatches twice; the hook of the first dispatch dispatches -/
def reentrantHandle : Frame Op :=
  .call processOp [.ret true, .ret true]
    (.call dispatchOp [.call dispatchOp [.ret true, .ret true] (.ret true), .ret true] (.ret true))

def reentrantTransactions : Transactions := [(1, .call processOp [.ret true, reentrantHandle] (.ret true))]

/-- one delivery and two dispatches -/
theorem mailbox_safety_reentrant :
    (∀ tx ∈ reentrantTransactions, tx.1 % 2 ^ 48 ≠ 0) ∧
    (let s := run (body plainConfig) (Storage.initial (someAddress 1) (someAddress 2) (someAddress 3) (someAddress 4))
      reentrantTransactions
    handledIds plainConfig s.history = [inboundMessage] ∧ s.nonce = 2 ∧
    HandlesVerified plainConfig (someAddress 2) s.history ∧
    (∀ id, s.delivered id = true ↔ id ∈ processedIds plainConfig s.history)) := by
  refine ⟨by decide, ?_⟩
  have hsafe := mailbox_safety plainConfig (someAddress 1) (someAddress 2) (someAddress 3) (someAddress 4)
    reentrantTransactions (by decide)
  exact ⟨by decide +kernel, by decide +kernel, hsafe.2.1, hsafe.2.2.1⟩

/-- in block 2^48 a delivery is forgotten: the message is not delivered after its `process`, and is handled again -/
theorem delivered_twice :
    let txs : Transactions :=
      [(2 ^ 48, .call processOp [.ret true, .ret true] (.ret true)), (2 ^ 48, .call processOp [.ret true, .ret true] (.ret true))]
    let s := run (body plainConfig) (Storage.initial (someAddress 1) (someAddress 2) (someAddress 3) (someAddress 4)) txs
    (∀ tx ∈ txs, 1 ≤ tx.1) ∧ (handledIds plainConfig s.history).count inboundMessage = 2 ∧
      s.delivered inboundMessage = false ∧ inboundMessage ∈ processedIds plainConfig s.history := by
  decide +kernel

end Traces

end Hyperlane.Mailbox
