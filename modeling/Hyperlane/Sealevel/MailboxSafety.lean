/-
The Sealevel mailbox over whole runs, whatever accounts its callers pass and whatever other programs do in between.

No other seeds lead to the addresses of the inbox and the outbox (`Lawful`). So an account that passes for the inbox is
the inbox. The account of a processed message exists from the moment the message was handled.

- `verifyInbox_spec`, `verifyOutbox_spec`: the checks of the accounts.
- `SoundChain.foreign`, `SoundChain.process`, `SoundChain.dispatch`: what can happen to the program's accounts.
- `calledFor_processCalls`: the calls of a processed message.
- `inbox_safety`: every message is handled at most once, after the ISM that its recipient named (or the default ISM) has
  accepted it, and the processed-message accounts number the handled messages.
- `outbox_safety`: the nonces count the dispatched messages, the tree holds their ids, each is stored in an account of its
  own, and its sender has signed.
-/
import Hyperlane.Core.Outcome
import Hyperlane.Sealevel.MailboxProgram

namespace Hyperlane.SealevelMailbox

open Hyperlane.Outcome Hyperlane.Bytes
open Hyperlane.Accumulator (IncrementalMerkle)
open Hyperlane.Relayer (Crypto H256 HyperlaneMessage)
open Hyperlane.Sealevel (Pubkey AccountMeta)

/-- what is known of the derivation of addresses -/
structure Runtime.Lawful (rt : Runtime) : Prop where
  find : ∀ seeds, rt.createProgramAddress seeds (rt.findProgramAddress seeds).2 = some (rt.pda seeds)
  /-- no other seeds lead to an address of the inbox or the outbox -/
  counters : ∀ {seeds seeds' bump bump' key}, seeds = .inbox ∨ seeds = .outbox →
    rt.createProgramAddress seeds bump = some key → rt.createProgramAddress seeds' bump' = some key → seeds' = seeds
  programId_ne : rt.programId ≠ rt.systemProgram

variable {rt : Runtime} {chain chain' : Chain} {s s' : State} {env : Env rt} {accounts : List AccountMeta}

theorem Runtime.Lawful.pda_inj (hrt : rt.Lawful) {seeds seeds' : Seeds} (hseeds : seeds = .inbox ∨ seeds = .outbox)
    (h : rt.pda seeds' = rt.pda seeds) : seeds' = seeds := by
  have hfind := hrt.find seeds'
  rw [h] at hfind
  exact hrt.counters hseeds (hrt.find seeds) hfind

/-! ## Histories -/

/-- the ids of the handled messages, in their order: what the mailbox logs after it called the recipient -/
def handledIds (h : List Event) : List H256 :=
  h.filterMap fun
    | .called _ (.InboxLog id) _ => some id
    | _ => none

/-- the dispatched messages, in their order -/
def dispatches (h : List Event) : List Sent :=
  h.filterMap fun
    | .dispatch sent => some sent
    | _ => none

/-- the default ISM that was set last -/
def defaultIsmOf (h : List Event) : Option Pubkey :=
  (h.filterMap fun
    | .setDefaultIsm ism => some ism
    | _ => none).getLast?

@[simp]
theorem handledIds_append (a b : List Event) : handledIds (a ++ b) = handledIds a ++ handledIds b :=
  List.filterMap_append

@[simp]
theorem dispatches_append (a b : List Event) : dispatches (a ++ b) = dispatches a ++ dispatches b :=
  List.filterMap_append

/-- the calls for a message that is handled, from `j` on: the recipient is asked for its ISM, the ISM that it names, or the
default ISM, verifies the message, the recipient handles it, and its id is logged -/
structure CalledFor (rt : Runtime) (h : List Event) (j : ℕ) (message : HyperlaneMessage) : Prop where
  version : message.version = VERSION
  verified : ∃ answer defaultIsm ism metadata bytes returned,
    h[j]? = some (.called message.recipient .InterchainSecurityModule answer) ∧ defaultIsmOf (h.take j) = some defaultIsm ∧
      returnedIsm message.recipient defaultIsm answer = .ok ism ∧
      h[j + 1]? = some (.called ism (.Verify metadata bytes) returned) ∧ readMessage bytes = .ok message
  handled : ∃ returned,
    h[j + 2]? = some (.called message.recipient (.Handle message.origin message.sender message.body) returned)
  logged : ∃ returned, h[j + 3]? = some (.called rt.splNoop (.InboxLog (message.id rt.crypto)) returned)

/-- every recipient is called for a message, and every logged id is that of one -/
structure HandlesVerified (rt : Runtime) (h : List Event) : Prop where
  handle : ∀ (i : ℕ) (recipient : Pubkey) (origin : UInt32) (sender : H256) (body : List UInt8) (returned : ReturnData),
    h[i]? = some (.called recipient (.Handle origin sender body) returned) → ∃ j message, i = j + 2 ∧
      CalledFor rt h j message ∧ recipient = message.recipient ∧ origin = message.origin ∧ sender = message.sender ∧
      body = message.body
  log : ∀ (i : ℕ) (program : Pubkey) (id : H256) (returned : ReturnData),
    h[i]? = some (.called program (.InboxLog id) returned) → ∃ j message, i = j + 3 ∧ CalledFor rt h j message ∧
      id = message.id rt.crypto

/-- the nonces count, and the account that signed may sign for the sender -/
def SentInOrder (rt : Runtime) (sent : List Sent) : Prop :=
  ∀ (i : ℕ) (m : Sent), sent[i]? = some m → m.message.nonce.toNat = i ∧ m.message.version = VERSION ∧
    m.senderSigner ∈ m.signers ∧ m.uniqueMessage ∈ m.signers ∧
    (m.senderSigner = m.message.sender ∨ m.senderSigner = rt.dispatchAuthority m.message.sender)

/-! ## Invariants -/

variable (rt) in
/-- what an account of the program holds, given the handled and the dispatched messages -/
def Holds (handled : List H256) (sent : List Sent) (key : Pubkey) : Data → Prop
  | .inbox inbox => key = rt.pda .inbox ∧ inbox.processedCount = handled.length
  | .outbox outbox => key = rt.pda .outbox ∧
      IncrementalMerkle.ingestAll rt.crypto.tree (.default rt.crypto.tree) (sent.map fun m => m.message.id rt.crypto) =
        some outbox.tree
  | .processed p => key = rt.pda (.processedMessage p.messageId) ∧ handled[p.sequence]? = some p.messageId
  | .dispatched d => key = rt.pda (.dispatchedMessage d.uniqueMessagePubkey) ∧
      ∃ m : Sent, sent[d.nonce.toNat]? = some m ∧ m.uniqueMessage = d.uniqueMessagePubkey ∧ d.nonce = m.message.nonce ∧
        d.encodedMessage = m.message.encode
  | .empty => ∀ seeds bump, rt.createProgramAddress seeds bump ≠ some key
  | .blank => ∀ seeds bump, rt.createProgramAddress seeds bump ≠ some key
  | .other _ => False

variable (rt chain) in
structure SoundChain (handled : List H256) (sent : List Sent) : Prop where
  owned : ∀ key, (chain key).owner = rt.programId → Holds rt handled sent key (chain key).data
  handled_stored : ∀ (i : ℕ) (id : H256), handled[i]? = some id →
    ∃ slot, chain (rt.pda (.processedMessage id)) = ⟨rt.programId, false, .processed ⟨i, id, slot⟩⟩
  sent_stored : ∀ (i : ℕ) (m : Sent), sent[i]? = some m → ∃ slot, chain (rt.pda (.dispatchedMessage m.uniqueMessage)) =
    ⟨rt.programId, false, .dispatched ⟨m.message.nonce, slot, m.uniqueMessage, m.message.encode⟩⟩
  inbox_missing : (chain (rt.pda .inbox)).owner ≠ rt.programId → handled = []
  outbox_missing : (chain (rt.pda .outbox)).owner ≠ rt.programId → sent = []

variable {handled : List H256} {sent : List Sent}

/-! ## Foreign programs -/

theorem Foreign.pda (hrt : rt.Lawful) (h : Foreign rt chain chain') (seeds : Seeds) :
    chain' (rt.pda seeds) = chain (rt.pda seeds) :=
  h.derived _ _ _ (hrt.find seeds)

/-- foreign programs do not touch the program's accounts -/
theorem SoundChain.foreign (hrt : rt.Lawful) (hs : SoundChain rt chain handled sent) (h : Foreign rt chain chain') :
    SoundChain rt chain' handled sent where
  owned key howner := by
    by_cases hold : (chain key).owner = rt.programId
    · rw [h.owned key hold]
      exact hs.owned key hold
    · have hnew : ∀ seeds bump, rt.createProgramAddress seeds bump ≠ some key := by
        intro seeds bump hderived
        rw [h.derived key seeds bump hderived] at howner
        exact hold howner
      rcases h.assigned key howner with hcontra | hempty | hblank
      · exact absurd hcontra hold
      · rw [hempty]
        exact hnew
      · rw [hblank]
        exact hnew
  handled_stored i id hi := by
    rw [h.pda hrt]
    exact hs.handled_stored i id hi
  sent_stored i m hi := by
    rw [h.pda hrt]
    exact hs.sent_stored i m hi
  inbox_missing hmissing := hs.inbox_missing (by rw [← h.pda hrt]; exact hmissing)
  outbox_missing hmissing := hs.outbox_missing (by rw [← h.pda hrt]; exact hmissing)

/-! ## The checks of the accounts -/

theorem ensure_bind {β : Type} {condition : Prop} [Decidable condition] {error : ProgramError}
    {f : Unit → Except ProgramError β} {b : β} :
    (ensure condition error >>= f) = .ok b ↔ condition ∧ f () = .ok b := by
  unfold ensure
  split_ifs with hc
  · simp [hc, ok_bind]
  · simp [hc, error_bind]

theorem ensure_eq_ok {condition : Prop} [Decidable condition] {error : ProgramError} {u : Unit} :
    ensure condition error = .ok u ↔ condition := by
  unfold ensure
  split_ifs with hc
  · simp [hc]
  · simp [hc]

theorem nextAccountInfo_eq_ok {info : AccountMeta} {rest : List AccountMeta}
    (h : nextAccountInfo accounts = .ok (info, rest)) : accounts = info :: rest := by
  cases accounts with
  | nil => cases h
  | cons first accounts =>
    cases h
    rfl

theorem verifyAddress_eq_ok {key : Pubkey} {seeds : Seeds} {bump : UInt8} {u : Unit}
    (h : verifyAddress rt chain key seeds bump = .ok u) :
    rt.createProgramAddress seeds bump = some key ∧ (chain key).owner = rt.programId := by
  unfold verifyAddress at h
  split at h
  · cases h
  · rename_i expected hexpected
    obtain ⟨hkey, h⟩ := ensure_bind.1 h
    rw [hexpected, hkey]
    rw [hkey] at h
    exact ⟨rfl, ensure_eq_ok.1 h⟩

/-- the seeds of the account with these contents -/
def seedsOf : Data → Option Seeds
  | .inbox _ => some .inbox
  | .outbox _ => some .outbox
  | .processed p => some (.processedMessage p.messageId)
  | .dispatched d => some (.dispatchedMessage d.uniqueMessagePubkey)
  | _ => none

/-- the program's account at a derived address holds what belongs there -/
theorem SoundChain.seedsOf_eq (hrt : rt.Lawful) (hs : SoundChain rt chain handled sent) {key : Pubkey} {seeds : Seeds}
    {bump : UInt8} (hcounter : seeds = .inbox ∨ seeds = .outbox) (hkey : rt.createProgramAddress seeds bump = some key)
    (howner : (chain key).owner = rt.programId) :
    seedsOf (chain key).data = some seeds ∧ key = rt.pda seeds := by
  have hplace : ∀ seeds', key = rt.pda seeds' → seeds' = seeds ∧ key = rt.pda seeds := by
    intro seeds' hpda
    have hsame : seeds' = seeds := by
      rw [hpda] at hkey
      exact hrt.counters hcounter hkey (hrt.find seeds')
    rw [← hsame]
    exact ⟨rfl, hpda⟩
  have hholds := hs.owned key howner
  cases hdata : (chain key).data with
  | inbox data =>
    rw [hdata] at hholds
    exact (hplace _ hholds.1).imp (congrArg some) id
  | outbox data =>
    rw [hdata] at hholds
    exact (hplace _ hholds.1).imp (congrArg some) id
  | processed data =>
    rw [hdata] at hholds
    exact (hplace _ hholds.1).imp (congrArg some) id
  | dispatched data =>
    rw [hdata] at hholds
    exact (hplace _ hholds.1).imp (congrArg some) id
  | empty =>
    rw [hdata] at hholds
    exact absurd hkey (hholds _ _)
  | blank =>
    rw [hdata] at hholds
    exact absurd hkey (hholds _ _)
  | other bytes =>
    rw [hdata] at hholds
    exact hholds.elim

/-- **What passes for the inbox is the inbox.** -/
theorem verifyInbox_spec (hrt : rt.Lawful) (hs : SoundChain rt chain handled sent) {info : AccountMeta} {inbox : Inbox}
    (h : verifyInbox rt chain info = .ok inbox) :
    info.pubkey = rt.pda .inbox ∧ (chain info.pubkey).owner = rt.programId ∧ (chain info.pubkey).data = .inbox inbox := by
  obtain ⟨fetched, hfetch, h⟩ := bind_eq_ok.1 h
  obtain ⟨u, haddress, h⟩ := bind_eq_ok.1 h
  cases h
  obtain ⟨hkey, howner⟩ := verifyAddress_eq_ok haddress
  obtain ⟨hseeds, hpda⟩ := hs.seedsOf_eq hrt (.inl rfl) hkey howner
  refine ⟨hpda, howner, ?_⟩
  cases hdata : (chain info.pubkey).data with
  | inbox data =>
    rw [hdata] at hfetch
    cases hfetch
    rfl
  | _ =>
    rw [hdata] at hseeds
    cases hseeds

/-- **What passes for the outbox is the outbox.** -/
theorem verifyOutbox_spec (hrt : rt.Lawful) (hs : SoundChain rt chain handled sent) {info : AccountMeta} {outbox : Outbox}
    (h : verifyOutbox rt chain info = .ok outbox) :
    info.pubkey = rt.pda .outbox ∧ (chain info.pubkey).owner = rt.programId ∧
      (chain info.pubkey).data = .outbox outbox := by
  obtain ⟨fetched, hfetch, h⟩ := bind_eq_ok.1 h
  obtain ⟨u, haddress, h⟩ := bind_eq_ok.1 h
  cases h
  obtain ⟨hkey, howner⟩ := verifyAddress_eq_ok haddress
  obtain ⟨hseeds, hpda⟩ := hs.seedsOf_eq hrt (.inr rfl) hkey howner
  refine ⟨hpda, howner, ?_⟩
  cases hdata : (chain info.pubkey).data with
  | outbox data =>
    rw [hdata] at hfetch
    cases hfetch
    rfl
  | _ =>
    rw [hdata] at hseeds
    cases hseeds

/-! ## Writing -/

/-- an account that is created was not the program's -/
theorem createAndStore_eq_ok (hrt : rt.Lawful) {funded : Bool} {info : AccountMeta} {data : Data}
    (h : createAndStore rt chain funded info data = .ok chain') :
    (chain info.pubkey).owner ≠ rt.programId ∧ chain' = Function.update chain info.pubkey ⟨rt.programId, false, data⟩ := by
  obtain ⟨u, hfree, h⟩ := bind_eq_ok.1 h
  obtain ⟨-, h⟩ := ensure_bind.1 h
  obtain ⟨-, h⟩ := ensure_bind.1 h
  cases h
  refine ⟨?_, rfl⟩
  unfold verifyAccountUninitialized at hfree
  split at hfree
  · rw [ensure_eq_ok.1 hfree]
    exact hrt.programId_ne.symm
  · cases hfree

theorem store_eq_ok {info : AccountMeta} {data : Data} (h : store chain info data = .ok chain') :
    chain' = Function.update chain info.pubkey { chain info.pubkey with data := data } := by
  obtain ⟨-, h⟩ := ensure_bind.1 h
  cases h
  rfl

/-- more handled messages do not change what the other accounts hold -/
theorem Holds.extend {key : Pubkey} {data : Data} (h : Holds rt handled sent key data) (more : List H256) (more' : List Sent)
    (hinbox : ∀ inbox, data = .inbox inbox → more = []) (houtbox : ∀ outbox, data = .outbox outbox → more' = []) :
    Holds rt (handled ++ more) (sent ++ more') key data := by
  cases data with
  | inbox inbox =>
    rw [hinbox inbox rfl, List.append_nil]
    exact h
  | outbox outbox =>
    rw [houtbox outbox rfl, List.append_nil]
    exact h
  | processed p =>
    refine ⟨h.1, ?_⟩
    rw [List.getElem?_append_left (List.getElem?_eq_some_iff.1 h.2).1]
    exact h.2
  | dispatched d =>
    obtain ⟨hkey, m, hm, hrest⟩ := h
    refine ⟨hkey, m, ?_, hrest⟩
    rw [List.getElem?_append_left (List.getElem?_eq_some_iff.1 hm).1]
    exact hm
  | empty => exact h
  | blank => exact h
  | other bytes => exact h

/-- an entry of a list with one more at its end -/
theorem getElem?_concat {α : Type} {l : List α} {x y : α} {i : ℕ} (h : (l ++ [x])[i]? = some y) :
    l[i]? = some y ∨ i = l.length ∧ x = y := by
  rw [List.getElem?_append] at h
  split_ifs at h with hlt
  · exact .inl h
  · right
    obtain ⟨hi, hx⟩ := List.getElem?_eq_some_iff.1 h
    rw [List.length_singleton] at hi
    refine ⟨by omega, ?_⟩
    simpa using hx

/-- **The program writes two accounts**, one that is new and one of the two that count; or one of these alone. -/
theorem SoundChain.append (hrt : rt.Lawful) (hs : SoundChain rt chain handled sent) (k₁ k₂ : Pubkey) (more : List H256)
    (more' : List Sent) (hfresh : (chain k₁).owner ≠ rt.programId ∨ k₁ = k₂)
    (hcounter : k₂ = rt.pda .inbox ∧ more' = [] ∨ k₂ = rt.pda .outbox ∧ more = [])
    (hrest : ∀ key, key ≠ k₁ → key ≠ k₂ → chain' key = chain key)
    (h₁ : (chain' k₁).owner = rt.programId ∧ Holds rt (handled ++ more) (sent ++ more') k₁ (chain' k₁).data)
    (h₂ : (chain' k₂).owner = rt.programId ∧ Holds rt (handled ++ more) (sent ++ more') k₂ (chain' k₂).data)
    (hhandled : ∀ (i : ℕ) (id : H256), handled[i]? = none → (handled ++ more)[i]? = some id → ∃ slot,
      chain' (rt.pda (.processedMessage id)) = ⟨rt.programId, false, .processed ⟨i, id, slot⟩⟩)
    (hsent : ∀ (i : ℕ) (m : Sent), sent[i]? = none → (sent ++ more')[i]? = some m → ∃ slot,
      chain' (rt.pda (.dispatchedMessage m.uniqueMessage)) =
        ⟨rt.programId, false, .dispatched ⟨m.message.nonce, slot, m.uniqueMessage, m.message.encode⟩⟩) :
    SoundChain rt chain' (handled ++ more) (sent ++ more') := by
  -- what is stored under seeds other than those of the two accounts stays
  have hkept : ∀ seeds, seeds ≠ .inbox → seeds ≠ .outbox → (chain (rt.pda seeds)).owner = rt.programId →
      chain' (rt.pda seeds) = chain (rt.pda seeds) := by
    intro seeds hinbox houtbox howner
    have hne : rt.pda seeds ≠ k₂ := by
      intro heq
      rcases hcounter with ⟨hk, -⟩ | ⟨hk, -⟩
      · exact hinbox (hrt.pda_inj (.inl rfl) (heq.trans hk))
      · exact houtbox (hrt.pda_inj (.inr rfl) (heq.trans hk))
    refine hrest _ ?_ hne
    intro heq
    rcases hfresh with hfresh | hfresh
    · exact hfresh (heq ▸ howner)
    · exact hne (heq.trans hfresh)
  have hforeign : ∀ key, (chain' key).owner ≠ rt.programId → chain' key = chain key := by
    intro key hne
    refine hrest key ?_ ?_
    · intro heq
      exact hne (heq ▸ h₁.1)
    · intro heq
      exact hne (heq ▸ h₂.1)
  refine ⟨?_, ?_, ?_, ?_, ?_⟩
  · intro key howner
    by_cases hk₁ : key = k₁
    · rw [hk₁]
      exact h₁.2
    · by_cases hk₂ : key = k₂
      · rw [hk₂]
        exact h₂.2
      · rw [hrest key hk₁ hk₂] at howner ⊢
        refine (hs.owned key howner).extend more more' ?_ ?_
        · intro inbox hdata
          have hholds := hs.owned key howner
          rw [hdata] at hholds
          rcases hcounter with ⟨hk, -⟩ | ⟨-, hmore⟩
          · exact absurd (hholds.1.trans hk.symm) hk₂
          · exact hmore
        · intro outbox hdata
          have hholds := hs.owned key howner
          rw [hdata] at hholds
          rcases hcounter with ⟨-, hmore⟩ | ⟨hk, -⟩
          · exact hmore
          · exact absurd (hholds.1.trans hk.symm) hk₂
  · intro i id hi
    cases hold : handled[i]? with
    | none => exact hhandled i id hold hi
    | some id' =>
      rw [List.getElem?_append_left (List.getElem?_eq_some_iff.1 hold).1] at hi
      obtain ⟨slot, hslot⟩ := hs.handled_stored i id hi
      refine ⟨slot, ?_⟩
      rw [hkept _ Seeds.noConfusion Seeds.noConfusion (by rw [hslot]), hslot]
  · intro i m hi
    cases hold : sent[i]? with
    | none => exact hsent i m hold hi
    | some m' =>
      rw [List.getElem?_append_left (List.getElem?_eq_some_iff.1 hold).1] at hi
      obtain ⟨slot, hslot⟩ := hs.sent_stored i m hi
      refine ⟨slot, ?_⟩
      rw [hkept _ Seeds.noConfusion Seeds.noConfusion (by rw [hslot]), hslot]
  · intro hmissing
    have hsame := hforeign _ hmissing
    rcases hcounter with ⟨hk, -⟩ | ⟨hk, hmore⟩
    · exact absurd h₂.1 (hk ▸ hmissing)
    · rw [hmore, List.append_nil]
      exact hs.inbox_missing (hsame ▸ hmissing)
  · intro hmissing
    have hsame := hforeign _ hmissing
    rcases hcounter with ⟨hk, hmore⟩ | ⟨hk, -⟩
    · rw [hmore, List.append_nil]
      exact hs.outbox_missing (hsame ▸ hmissing)
    · exact absurd h₂.1 (hk ▸ hmissing)

/-! ## Instructions -/

variable (rt chain) in
/-- the inbox has the default ISM that was set last -/
def DefaultIsm (h : List Event) : Prop := ∀ inbox, (chain (rt.pda .inbox)).owner = rt.programId →
  (chain (rt.pda .inbox)).data = .inbox inbox → defaultIsmOf h = some inbox.defaultIsm

variable (rt s) in
/-- the program's accounts and the record agree -/
structure Sound : Prop where
  chain : SoundChain rt s.chain (handledIds s.history) (dispatches s.history)
  defaultIsm : DefaultIsm rt s.chain s.history
  verified : HandlesVerified rt s.history
  inOrder : SentInOrder rt (dispatches s.history)

theorem DefaultIsm.congr {h h' : List Event} (hd : DefaultIsm rt chain h)
    (hsame : chain' (rt.pda .inbox) = chain (rt.pda .inbox)) (hset : defaultIsmOf h' = defaultIsmOf h) :
    DefaultIsm rt chain' h' := by
  intro inbox howner hdata
  rw [hsame] at howner hdata
  exact hset.trans (hd inbox howner hdata)

theorem defaultIsmOf_concat (h : List Event) (ism : Pubkey) : defaultIsmOf (h ++ [.setDefaultIsm ism]) = some ism := by
  rw [defaultIsmOf, List.filterMap_append]
  exact List.getLast?_concat

/-- an event that sets no default ISM -/
theorem defaultIsmOf_other {h : List Event} {e : Event} (he : ∀ ism, e ≠ .setDefaultIsm ism) :
    defaultIsmOf (h ++ [e]) = defaultIsmOf h := by
  rw [defaultIsmOf, List.filterMap_append, defaultIsmOf]
  cases e with
  | setDefaultIsm ism => exact absurd rfl (he ism)
  | called program request returned => exact congrArg _ (List.append_nil _)
  | dispatch sent => exact congrArg _ (List.append_nil _)

/-- a call adds its event, and what the program did to the chain -/
theorem invoke_eq_ok {programs : Programs rt} {program : Pubkey} {request : Request} {borrowed : Pubkey}
    {infos : List AccountMeta} {returned : ReturnData}
    (h : invoke rt programs program request borrowed infos s = .ok (returned, s')) :
    Foreign rt s.chain s'.chain ∧ s'.history = s.history ++ [.called program request returned] := by
  obtain ⟨-, h⟩ := ensure_bind.1 h
  split at h
  · cases h
  · rename_i returned' chain' hrun
    cases h
    exact ⟨(programs program request infos).foreign s.chain returned chain' hrun, rfl⟩

theorem DefaultIsm.invoke (hrt : rt.Lawful) (hd : DefaultIsm rt s.chain s.history) {programs : Programs rt}
    {program : Pubkey} {request : Request} {borrowed : Pubkey} {infos : List AccountMeta} {returned : ReturnData}
    (h : invoke rt programs program request borrowed infos s = .ok (returned, s')) :
    DefaultIsm rt s'.chain s'.history := by
  obtain ⟨hforeign, hhistory⟩ := invoke_eq_ok h
  refine hd.congr (hforeign.pda hrt .inbox) ?_
  rw [hhistory]
  exact defaultIsmOf_other fun _ => Event.noConfusion

/-- what is written is what was set last -/
theorem DefaultIsm.of_written {h : List Event} {inbox : Inbox} (hdata : (chain (rt.pda .inbox)).data = .inbox inbox)
    (hset : defaultIsmOf h = some inbox.defaultIsm) : DefaultIsm rt chain h := by
  intro inbox' _ hdata'
  obtain rfl := Data.inbox.inj (hdata.symm.trans hdata')
  exact hset

/-- what `inboxProcess` does between the foreign calls -/
theorem SoundChain.process (hrt : rt.Lawful) (hs : SoundChain rt chain handled sent) {ik pk : Pubkey} {id : H256}
    {inbox : Inbox} {slot : ℕ} (hik : ik = rt.pda .inbox) (hpk : pk = rt.pda (.processedMessage id))
    (howner : (chain ik).owner = rt.programId) (hdata : (chain ik).data = .inbox inbox)
    (hfresh : (chain pk).owner ≠ rt.programId) (hwritten : chain' = Function.update chain pk
      ⟨rt.programId, false, .processed ⟨inbox.processedCount, id, slot⟩⟩) :
    SoundChain rt (Function.update chain' ik { chain' ik with
      data := .inbox { inbox with processedCount := inbox.processedCount + 1 } }) (handled ++ [id]) sent := by
  have hne : ik ≠ pk := by
    intro heq
    exact hfresh (heq ▸ howner)
  have hcount : inbox.processedCount = handled.length := by
    have hholds := hs.owned ik howner
    rw [hdata] at hholds
    exact hholds.2
  have hpk' : Function.update chain' ik { chain' ik with
      data := .inbox { inbox with processedCount := inbox.processedCount + 1 } } pk =
      ⟨rt.programId, false, .processed ⟨inbox.processedCount, id, slot⟩⟩ := by
    rw [Function.update_of_ne hne.symm, hwritten, Function.update_self]
  have hik' : chain' ik = chain ik := by
    rw [hwritten, Function.update_of_ne hne]
  rw [← List.append_nil sent]
  refine hs.append hrt pk ik [id] [] (.inl hfresh) (.inl ⟨hik, rfl⟩) ?_ ?_ ?_ ?_ ?_
  · intro key h₁ h₂
    rw [Function.update_of_ne h₂, hwritten, Function.update_of_ne h₁]
  · rw [hpk']
    refine ⟨rfl, hpk, ?_⟩
    rw [hcount, List.getElem?_concat_length]
  · rw [Function.update_self, hik']
    refine ⟨howner, hik, ?_⟩
    rw [List.length_append, List.length_singleton, hcount]
  · intro i id' hold hi
    rcases getElem?_concat hi with hlt | ⟨hlen, heq⟩
    · rw [hold] at hlt
      cases hlt
    · refine ⟨slot, ?_⟩
      rw [← heq, ← hpk, hpk', hlen, hcount]
  · intro i m hold hi
    rw [List.append_nil, hold] at hi
    cases hi

theorem CalledFor.append {h : List Event} {j : ℕ} {message : HyperlaneMessage} (hc : CalledFor rt h j message)
    (more : List Event) : CalledFor rt (h ++ more) j message := by
  obtain ⟨hversion, ⟨answer, defaultIsm, ism, metadata, bytes, returned, hasked, hdefault, hism, hverified, hread⟩,
    ⟨returned₁, hhandled⟩, ⟨returned₂, hlogged⟩⟩ := hc
  have hlt : j + 3 < h.length := (List.getElem?_eq_some_iff.1 hlogged).1
  have hold : ∀ k, k ≤ j + 3 → (h ++ more)[k]? = h[k]? := fun k hk => List.getElem?_append_left (by omega)
  refine ⟨hversion, ⟨answer, defaultIsm, ism, metadata, bytes, returned, ?_, ?_, hism, ?_, hread⟩, ⟨returned₁, ?_⟩,
    ⟨returned₂, ?_⟩⟩
  · rw [hold j (by omega)]
    exact hasked
  · rw [List.take_append_of_le_length (by omega)]
    exact hdefault
  · rw [hold (j + 1) (by omega)]
    exact hverified
  · rw [hold (j + 2) (by omega)]
    exact hhandled
  · rw [hold (j + 3) (by omega)]
    exact hlogged

section Calls

variable {h : List Event} {message : HyperlaneMessage} {ism : Pubkey} {metadata bytes : List UInt8}
  {answer returned returned₁ returned₂ : ReturnData}

variable (rt message ism metadata bytes answer returned returned₁ returned₂) in
/-- the calls of `inboxProcess` -/
def processCalls : List Event :=
  [.called message.recipient .InterchainSecurityModule answer, .called ism (.Verify metadata bytes) returned,
    .called message.recipient (.Handle message.origin message.sender message.body) returned₁,
    .called rt.splNoop (.InboxLog (message.id rt.crypto)) returned₂]

/-- the answers of the calls are checked -/
theorem calledFor_processCalls {defaultIsm : Pubkey} (hversion : message.version = VERSION)
    (hdefault : defaultIsmOf h = some defaultIsm) (hism : returnedIsm message.recipient defaultIsm answer = .ok ism)
    (hread : readMessage bytes = .ok message) :
    CalledFor rt (h ++ processCalls rt message ism metadata bytes answer returned returned₁ returned₂) h.length message := by
  have hnew : ∀ k, (h ++ processCalls rt message ism metadata bytes answer returned returned₁ returned₂)[h.length + k]? =
      (processCalls rt message ism metadata bytes answer returned returned₁ returned₂)[k]? := by
    intro k
    rw [List.getElem?_append_right (by omega), Nat.add_sub_cancel_left]
  refine ⟨hversion, ⟨answer, defaultIsm, ism, metadata, bytes, returned, hnew 0, ?_, hism, hnew 1, hread⟩,
    ⟨returned₁, hnew 2⟩, ⟨returned₂, hnew 3⟩⟩
  rw [List.take_left]
  exact hdefault

/-- the calls for one more message -/
theorem HandlesVerified.process (hh : HandlesVerified rt h)
    (hc : CalledFor rt (h ++ processCalls rt message ism metadata bytes answer returned returned₁ returned₂) h.length
      message) :
    HandlesVerified rt (h ++ processCalls rt message ism metadata bytes answer returned returned₁ returned₂) := by
  constructor
  · intro i recipient origin sender body returned' hi
    by_cases hlt : i < h.length
    · rw [List.getElem?_append_left hlt] at hi
      obtain ⟨j, m, hj, hm, hrest⟩ := hh.handle i recipient origin sender body returned' hi
      exact ⟨j, m, hj, hm.append _, hrest⟩
    · obtain ⟨k, hk⟩ : ∃ k, i = h.length + k := ⟨i - h.length, by omega⟩
      rw [hk, List.getElem?_append_right (by omega), Nat.add_sub_cancel_left] at hi
      match k, hi with
      | 0, hi => cases hi
      | 1, hi => cases hi
      | 2, hi =>
        cases hi
        exact ⟨h.length, message, hk, hc, rfl, rfl, rfl, rfl⟩
      | 3, hi => cases hi
      | k + 4, hi => cases hi
  · intro i program id returned' hi
    by_cases hlt : i < h.length
    · rw [List.getElem?_append_left hlt] at hi
      obtain ⟨j, m, hj, hm, hrest⟩ := hh.log i program id returned' hi
      exact ⟨j, m, hj, hm.append _, hrest⟩
    · obtain ⟨k, hk⟩ : ∃ k, i = h.length + k := ⟨i - h.length, by omega⟩
      rw [hk, List.getElem?_append_right (by omega), Nat.add_sub_cancel_left] at hi
      match k, hi with
      | 0, hi => cases hi
      | 1, hi => cases hi
      | 2, hi => cases hi
      | 3, hi =>
        cases hi
        exact ⟨h.length, message, hk, hc, rfl⟩
      | k + 4, hi => cases hi

end Calls

/-- an event that is no call comes after a history without disturbing it -/
theorem HandlesVerified.other {h : List Event} (hh : HandlesVerified rt h) {e : Event}
    (he : ∀ program request returned, e ≠ .called program request returned) : HandlesVerified rt (h ++ [e]) := by
  constructor
  · intro i recipient origin sender body returned hi
    rcases getElem?_concat hi with hi | ⟨-, heq⟩
    · obtain ⟨j, m, hj, hm, hrest⟩ := hh.handle i recipient origin sender body returned hi
      exact ⟨j, m, hj, hm.append _, hrest⟩
    · exact absurd heq (he _ _ _)
  · intro i program id returned hi
    rcases getElem?_concat hi with hi | ⟨-, heq⟩
    · obtain ⟨j, m, hj, hm, hrest⟩ := hh.log i program id returned hi
      exact ⟨j, m, hj, hm.append _, hrest⟩
    · exact absurd heq (he _ _ _)

theorem inboxProcess_sound (hrt : rt.Lawful) (hs : Sound rt s) {process : InboxProcess}
    (h : inboxProcess env s accounts process = .ok s') : Sound rt s' := by
  obtain ⟨message, hread, h⟩ := bind_eq_ok.1 h
  obtain ⟨hversion, h⟩ := ensure_bind.1 h
  obtain ⟨⟨payerInfo, accounts₁⟩, -, h⟩ := bind_eq_ok.1 h
  obtain ⟨-, h⟩ := ensure_bind.1 h
  obtain ⟨⟨systemProgramInfo, accounts₂⟩, -, h⟩ := bind_eq_ok.1 h
  obtain ⟨-, h⟩ := ensure_bind.1 h
  obtain ⟨⟨inboxInfo, accounts₃⟩, -, h⟩ := bind_eq_ok.1 h
  obtain ⟨inbox, hinbox, h⟩ := bind_eq_ok.1 h
  obtain ⟨-, h⟩ := ensure_bind.1 h
  obtain ⟨⟨processAuthorityInfo, accounts₄⟩, -, h⟩ := bind_eq_ok.1 h
  obtain ⟨-, h⟩ := ensure_bind.1 h
  obtain ⟨⟨processedMessageInfo, accounts₅⟩, -, h⟩ := bind_eq_ok.1 h
  obtain ⟨hprocessed, h⟩ := ensure_bind.1 h
  dsimp only at h
  split at h
  · cases h
  obtain ⟨⟨getIsmInfos, accounts₆⟩, -, h⟩ := bind_eq_ok.1 h
  obtain ⟨⟨answer, s₁⟩, hasked, h⟩ := bind_eq_ok.1 h
  obtain ⟨ism, hism, h⟩ := bind_eq_ok.1 h
  obtain ⟨⟨splNoopInfo, accounts₇⟩, -, h⟩ := bind_eq_ok.1 h
  obtain ⟨-, h⟩ := ensure_bind.1 h
  obtain ⟨-, h⟩ := ensure_bind.1 h
  obtain ⟨⟨ismInfo, accounts₈⟩, -, h⟩ := bind_eq_ok.1 h
  obtain ⟨-, h⟩ := ensure_bind.1 h
  obtain ⟨⟨ismVerifyInfos, accounts₉⟩, -, h⟩ := bind_eq_ok.1 h
  obtain ⟨⟨recipientInfo, accounts₁₀⟩, -, h⟩ := bind_eq_ok.1 h
  obtain ⟨-, h⟩ := ensure_bind.1 h
  obtain ⟨-, h⟩ := ensure_bind.1 h
  obtain ⟨⟨returned, s₂⟩, hverify, h⟩ := bind_eq_ok.1 h
  obtain ⟨chain₃, hcreate, h⟩ := bind_eq_ok.1 h
  obtain ⟨-, h⟩ := ensure_bind.1 h
  obtain ⟨-, h⟩ := ensure_bind.1 h
  obtain ⟨⟨returned₁, s₄⟩, hhandle, h⟩ := bind_eq_ok.1 h
  obtain ⟨⟨returned₂, s₅⟩, hlog, h⟩ := bind_eq_ok.1 h
  cases h
  obtain ⟨hik, howner, hdata⟩ := verifyInbox_spec hrt hs.chain hinbox
  obtain ⟨hforeign₁, hh₁⟩ := invoke_eq_ok hasked
  obtain ⟨hforeign₂, hh₂⟩ := invoke_eq_ok hverify
  obtain ⟨hforeign₄, hh₄⟩ := invoke_eq_ok hhandle
  obtain ⟨hforeign₅, hh₅⟩ := invoke_eq_ok hlog
  have hs₂ := (hs.chain.foreign hrt hforeign₁).foreign hrt hforeign₂
  have hsame : s₂.chain inboxInfo.pubkey = s.chain inboxInfo.pubkey := by
    rw [hik, hforeign₂.pda hrt, hforeign₁.pda hrt]
  have hdefault := hs.defaultIsm inbox (by rw [← hik]; exact howner) (by rw [← hik]; exact hdata)
  obtain ⟨hfresh, hwritten⟩ := createAndStore_eq_ok hrt hcreate
  rw [← hsame] at howner hdata
  have hs₃ := hs₂.process hrt hik hprocessed howner hdata hfresh hwritten
  have hs₄ := (hs₃.foreign hrt hforeign₄).foreign hrt hforeign₅
  have hhistory : s₅.history = s.history ++ processCalls rt message ism process.metadata process.message answer returned
      returned₁ returned₂ := by
    rw [hh₅, hh₄, hh₂, hh₁, processCalls]
    simp only [List.append_assoc, List.cons_append, List.nil_append]
  have hdefault₂ : defaultIsmOf s₂.history = some inbox.defaultIsm := by
    rw [hh₂, defaultIsmOf_other fun _ => Event.noConfusion, hh₁, defaultIsmOf_other fun _ => Event.noConfusion]
    exact hdefault
  refine ⟨?_, ?_, ?_, ?_⟩
  · rw [hhistory, handledIds_append, dispatches_append]
    simpa [handledIds, dispatches, processCalls] using hs₄
  · refine DefaultIsm.invoke hrt (DefaultIsm.invoke hrt ?_ hhandle) hlog
    have hstored : (Function.update chain₃ inboxInfo.pubkey { chain₃ inboxInfo.pubkey with
        data := .inbox { inbox with processedCount := inbox.processedCount + 1 } } (rt.pda .inbox)).data =
          .inbox { inbox with processedCount := inbox.processedCount + 1 } := by
      rw [hik, Function.update_self]
    exact DefaultIsm.of_written hstored hdefault₂
  · rw [hhistory]
    exact hs.verified.process (calledFor_processCalls hversion hdefault hism hread)
  · rw [hhistory, dispatches_append]
    simpa [dispatches, processCalls] using hs.inOrder

/-- what `outboxDispatch` writes -/
theorem SoundChain.dispatch (hrt : rt.Lawful) (hs : SoundChain rt chain handled sent)
    {ok dk : Pubkey} {outbox : Outbox} {tree : IncrementalMerkle H256} {slot : ℕ} {m : Sent} (hok : ok = rt.pda .outbox)
    (hdk : rt.pda (.dispatchedMessage m.uniqueMessage) = dk) (howner : (chain ok).owner = rt.programId)
    (hdata : (chain ok).data = .outbox outbox) (hbound : outbox.tree.count < 2 ^ 32)
    (hnonce : m.message.nonce = UInt32.ofNat outbox.tree.count)
    (htree : outbox.tree.ingest rt.crypto.tree (m.message.id rt.crypto) = some tree)
    (hfresh : (chain dk).owner ≠ rt.programId) (hwritten : chain' = Function.update chain dk
      ⟨rt.programId, false, .dispatched ⟨m.message.nonce, slot, m.uniqueMessage, m.message.encode⟩⟩) :
    SoundChain rt (Function.update chain' ok { chain' ok with data := .outbox { outbox with tree := tree } })
      handled (sent ++ [m]) ∧ m.message.nonce.toNat = sent.length := by
  have hne : ok ≠ dk := by
    intro heq
    exact hfresh (heq ▸ howner)
  obtain ⟨-, hids⟩ : Holds rt handled sent ok (.outbox outbox) := by
    rw [← hdata]
    exact hs.owned ok howner
  have hcount : outbox.tree.count = sent.length := by
    have hlen := IncrementalMerkle.ingestAll_count hids
    simpa [IncrementalMerkle.default] using hlen.1
  have hnonce' : m.message.nonce.toNat = sent.length := by
    rw [hnonce, UInt32.toNat_ofNat_of_lt' hbound, hcount]
  have hdk' : Function.update chain' ok { chain' ok with data := .outbox { outbox with tree := tree } } dk =
      ⟨rt.programId, false, .dispatched ⟨m.message.nonce, slot, m.uniqueMessage, m.message.encode⟩⟩ := by
    rw [Function.update_of_ne hne.symm, hwritten, Function.update_self]
  have hok' : chain' ok = chain ok := by
    rw [hwritten, Function.update_of_ne hne]
  refine ⟨?_, hnonce'⟩
  rw [← List.append_nil handled]
  refine hs.append hrt dk ok [] [m] (.inl hfresh) (.inr ⟨hok, rfl⟩) ?_ ?_ ?_ ?_ ?_
  · intro key h₁ h₂
    rw [Function.update_of_ne h₂, hwritten, Function.update_of_ne h₁]
  · rw [hdk']
    refine ⟨rfl, hdk.symm, m, ?_, rfl, rfl, rfl⟩
    rw [hnonce', List.getElem?_concat_length]
  · rw [Function.update_self, hok']
    refine ⟨howner, hok, ?_⟩
    rw [List.map_append, List.map_singleton, IncrementalMerkle.ingestAll_concat]
    exact ⟨outbox.tree, hids, htree⟩
  · intro i id hold hi
    rw [List.append_nil, hold] at hi
    cases hi
  · intro i m' hold hi
    rcases getElem?_concat hi with hlt | ⟨-, heq⟩
    · rw [hold] at hlt
      cases hlt
    · refine ⟨slot, ?_⟩
      rw [← heq, hdk, hdk']

theorem outboxDispatch_sound (hrt : rt.Lawful) (hs : Sound rt s) {dispatch : OutboxDispatch}
    (h : outboxDispatch env s accounts dispatch = .ok s') : Sound rt s' := by
  obtain ⟨⟨outboxInfo, accounts₁⟩, hoinfo, h⟩ := bind_eq_ok.1 h
  obtain ⟨outbox, houtbox, h⟩ := bind_eq_ok.1 h
  obtain ⟨⟨senderSignerInfo, accounts₂⟩, hsinfo, h⟩ := bind_eq_ok.1 h
  obtain ⟨hsigner, h⟩ := ensure_bind.1 h
  obtain ⟨hauthority, h⟩ := ensure_bind.1 h
  obtain ⟨⟨systemProgramInfo, accounts₃⟩, hyinfo, h⟩ := bind_eq_ok.1 h
  obtain ⟨-, h⟩ := ensure_bind.1 h
  obtain ⟨⟨splNoopInfo, accounts₄⟩, hninfo, h⟩ := bind_eq_ok.1 h
  obtain ⟨-, h⟩ := ensure_bind.1 h
  obtain ⟨-, h⟩ := ensure_bind.1 h
  obtain ⟨⟨payerInfo, accounts₅⟩, hpinfo, h⟩ := bind_eq_ok.1 h
  obtain ⟨-, h⟩ := ensure_bind.1 h
  obtain ⟨⟨uniqueMessageInfo, accounts₆⟩, huinfo, h⟩ := bind_eq_ok.1 h
  obtain ⟨hunique, h⟩ := ensure_bind.1 h
  obtain ⟨⟨dispatchedMessageInfo, accounts₇⟩, -, h⟩ := bind_eq_ok.1 h
  obtain ⟨hdk, h⟩ := ensure_bind.1 h
  obtain ⟨u, -, h⟩ := bind_eq_ok.1 h
  obtain ⟨-, h⟩ := ensure_bind.1 h
  obtain ⟨hbound, h⟩ := ensure_bind.1 h
  obtain ⟨-, h⟩ := ensure_bind.1 h
  dsimp only at h
  split at h
  · cases h
  rename_i tree htree
  obtain ⟨chain₁, hcreate, h⟩ := bind_eq_ok.1 h
  obtain ⟨chain₂, hstore, h⟩ := bind_eq_ok.1 h
  cases h
  obtain ⟨hok, howner, hdata⟩ := verifyOutbox_spec hrt hs.chain houtbox
  obtain ⟨hfresh, hwritten⟩ := createAndStore_eq_ok hrt hcreate
  obtain ⟨hs', hnonce⟩ := hs.chain.dispatch hrt (m := ⟨_, _, _, _⟩) hok hdk howner hdata hbound rfl htree
    hfresh hwritten
  rw [← store_eq_ok hstore] at hs'
  refine ⟨?_, ?_, hs.verified.other fun _ _ _ => Event.noConfusion, ?_⟩
  · rw [handledIds_append, dispatches_append]
    simpa [handledIds, dispatches] using hs'
  · refine hs.defaultIsm.congr ?_ (defaultIsmOf_other fun _ => Event.noConfusion)
    have hinbox : rt.pda .inbox ≠ outboxInfo.pubkey := fun heq => by
      cases hrt.pda_inj (.inr rfl) (heq.trans hok)
    have hfree : rt.pda .inbox ≠ dispatchedMessageInfo.pubkey := fun heq => by
      cases hrt.pda_inj (.inl rfl) (hdk.trans heq.symm)
    change chain₂ (rt.pda .inbox) = _
    rw [store_eq_ok hstore, Function.update_of_ne hinbox, hwritten, Function.update_of_ne hfree]
  · have haccounts : accounts = outboxInfo :: senderSignerInfo :: systemProgramInfo :: splNoopInfo :: payerInfo ::
        uniqueMessageInfo :: accounts₆ := by
      rw [nextAccountInfo_eq_ok hoinfo, nextAccountInfo_eq_ok hsinfo, nextAccountInfo_eq_ok hyinfo,
        nextAccountInfo_eq_ok hninfo, nextAccountInfo_eq_ok hpinfo, nextAccountInfo_eq_ok huinfo]
    have hsigned : ∀ info ∈ accounts, info.isSigner = true →
        info.pubkey ∈ (accounts.filter fun info => info.isSigner).map AccountMeta.pubkey :=
      fun info hinfo hyes => List.mem_map_of_mem (List.mem_filter.2 ⟨hinfo, hyes⟩)
    rw [dispatches_append]
    intro i m hi
    rcases getElem?_concat hi with hi | ⟨hlen, heq⟩
    · exact hs.inOrder i m hi
    · rw [← heq, hlen]
      refine ⟨hnonce, rfl, hsigned senderSignerInfo ?_ hsigner, hsigned uniqueMessageInfo ?_ hunique, ?_⟩
      · simp [haccounts]
      · simp [haccounts]
      · rcases hauthority with hself | hpda
        · exact .inl hself
        · exact .inr hpda.symm

/-- the inbox gets other settings -/
theorem SoundChain.setInbox (hrt : rt.Lawful) (hs : SoundChain rt chain handled sent) {ik : Pubkey}
    {inbox inbox' : Inbox} (hik : ik = rt.pda .inbox) (howner : (chain ik).owner = rt.programId)
    (hdata : (chain ik).data = .inbox inbox)
    (hcount : inbox'.processedCount = inbox.processedCount) :
    SoundChain rt (Function.update chain ik { chain ik with data := .inbox inbox' }) handled sent := by
  obtain ⟨-, hc⟩ : Holds rt handled sent ik (.inbox inbox) := by
    rw [← hdata]
    exact hs.owned ik howner
  have hnew : (Function.update chain ik { chain ik with data := .inbox inbox' } ik).owner = rt.programId ∧
      Holds rt (handled ++ []) (sent ++ []) ik
        (Function.update chain ik { chain ik with data := .inbox inbox' } ik).data := by
    rw [Function.update_self, List.append_nil, List.append_nil]
    exact ⟨howner, hik, hcount.trans hc⟩
  have happend := hs.append hrt ik ik [] [] (.inr rfl) (.inl ⟨hik, rfl⟩)
    (fun key h₁ _ => Function.update_of_ne h₁ _ _) hnew hnew
    (fun i id hold hi => by rw [List.append_nil, hold] at hi; cases hi)
    (fun i m hold hi => by rw [List.append_nil, hold] at hi; cases hi)
  rw [List.append_nil, List.append_nil] at happend
  exact happend

/-- the outbox gets other settings -/
theorem SoundChain.setOutbox (hrt : rt.Lawful) (hs : SoundChain rt chain handled sent) {ok : Pubkey}
    {outbox outbox' : Outbox} (hok : ok = rt.pda .outbox) (howner : (chain ok).owner = rt.programId)
    (hdata : (chain ok).data = .outbox outbox)
    (htree : outbox'.tree = outbox.tree) :
    SoundChain rt (Function.update chain ok { chain ok with data := .outbox outbox' }) handled sent := by
  obtain ⟨-, ht⟩ : Holds rt handled sent ok (.outbox outbox) := by
    rw [← hdata]
    exact hs.owned ok howner
  have hnew : (Function.update chain ok { chain ok with data := .outbox outbox' } ok).owner = rt.programId ∧
      Holds rt (handled ++ []) (sent ++ []) ok
        (Function.update chain ok { chain ok with data := .outbox outbox' } ok).data := by
    rw [Function.update_self, List.append_nil, List.append_nil]
    refine ⟨howner, hok, ?_⟩
    rw [htree]
    exact ht
  have happend := hs.append hrt ok ok [] [] (.inr rfl) (.inr ⟨hok, rfl⟩)
    (fun key h₁ _ => Function.update_of_ne h₁ _ _) hnew hnew
    (fun i id hold hi => by rw [List.append_nil, hold] at hi; cases hi)
    (fun i m hold hi => by rw [List.append_nil, hold] at hi; cases hi)
  rw [List.append_nil, List.append_nil] at happend
  exact happend

/-- an account that was missing is created, with nothing counted yet -/
theorem SoundChain.create (hrt : rt.Lawful) (hs : SoundChain rt chain handled sent) {k : Pubkey} {data : Data}
    (hcounter : k = rt.pda .inbox ∨ k = rt.pda .outbox)
    (hdata : Holds rt handled sent k data) :
    SoundChain rt (Function.update chain k ⟨rt.programId, false, data⟩) handled sent := by
  have hnew : (Function.update chain k ⟨rt.programId, false, data⟩ k).owner = rt.programId ∧
      Holds rt (handled ++ []) (sent ++ []) k (Function.update chain k ⟨rt.programId, false, data⟩ k).data := by
    rw [Function.update_self, List.append_nil, List.append_nil]
    exact ⟨rfl, hdata⟩
  have happend := hs.append hrt k k [] [] (.inr rfl)
    (hcounter.imp (fun hk => ⟨hk, rfl⟩) fun hk => ⟨hk, rfl⟩)
    (fun key h₁ _ => Function.update_of_ne h₁ _ _) hnew hnew
    (fun i id hold hi => by rw [List.append_nil, hold] at hi; cases hi)
    (fun i m hold hi => by rw [List.append_nil, hold] at hi; cases hi)
  rw [List.append_nil, List.append_nil] at happend
  exact happend

theorem initializeMailbox_sound (hrt : rt.Lawful) (hs : Sound rt s) {init : Init}
    (h : initializeMailbox env s accounts init = .ok s') : Sound rt s' := by
  obtain ⟨⟨systemProgramInfo, accounts₁⟩, -, h⟩ := bind_eq_ok.1 h
  obtain ⟨-, h⟩ := ensure_bind.1 h
  obtain ⟨⟨payerInfo, accounts₂⟩, -, h⟩ := bind_eq_ok.1 h
  obtain ⟨-, h⟩ := ensure_bind.1 h
  obtain ⟨⟨inboxInfo, accounts₃⟩, -, h⟩ := bind_eq_ok.1 h
  obtain ⟨hik, h⟩ := ensure_bind.1 h
  obtain ⟨u, -, h⟩ := bind_eq_ok.1 h
  obtain ⟨-, h⟩ := ensure_bind.1 h
  obtain ⟨chain₁, hinbox, h⟩ := bind_eq_ok.1 h
  obtain ⟨⟨outboxInfo, accounts₄⟩, -, h⟩ := bind_eq_ok.1 h
  obtain ⟨hok, h⟩ := ensure_bind.1 h
  obtain ⟨u', -, h⟩ := bind_eq_ok.1 h
  obtain ⟨chain₂, houtbox, h⟩ := bind_eq_ok.1 h
  cases h
  obtain ⟨hfresh₁, hwritten₁⟩ := createAndStore_eq_ok hrt hinbox
  obtain ⟨hfresh₂, hwritten₂⟩ := createAndStore_eq_ok hrt houtbox
  have hs₁ : SoundChain rt chain₁ (handledIds s.history) (dispatches s.history) := by
    rw [hwritten₁]
    refine hs.chain.create hrt (.inl hik.symm) ⟨hik.symm, ?_⟩
    rw [← hik] at hfresh₁
    rw [hs.chain.inbox_missing hfresh₁]
    rfl
  have hapart : rt.pda .inbox ≠ outboxInfo.pubkey := fun heq => by
    cases hrt.pda_inj (.inr rfl) (heq.trans hok.symm)
  have hdata : (chain₂ (rt.pda .inbox)).data =
      .inbox ⟨init.localDomain, (rt.findProgramAddress .inbox).2, init.defaultIsm, 0⟩ := by
    rw [hwritten₂, Function.update_of_ne hapart, hwritten₁, show rt.pda .inbox = inboxInfo.pubkey from hik,
      Function.update_self]
  refine ⟨?_, DefaultIsm.of_written hdata (defaultIsmOf_concat _ _),
    hs.verified.other fun _ _ _ => Event.noConfusion, ?_⟩
  · rw [handledIds_append, dispatches_append]
    simp only [handledIds, dispatches, List.filterMap_cons, List.filterMap_nil, List.append_nil]
    change SoundChain rt chain₂ (handledIds s.history) (dispatches s.history)
    rw [hwritten₂]
    refine hs₁.create hrt (.inr hok.symm) ⟨hok.symm, ?_⟩
    rw [← hok] at hfresh₂
    rw [hs₁.outbox_missing hfresh₂]
    rfl
  · rw [dispatches_append]
    exact (List.append_nil _).symm ▸ hs.inOrder

/-- the outbox gets other settings, and the rest stays -/
theorem Sound.setOutbox (hrt : rt.Lawful) (hs : Sound rt s) {ok : Pubkey} {outbox outbox' : Outbox}
    (hok : ok = rt.pda .outbox) (howner : (s.chain ok).owner = rt.programId) (hdata : (s.chain ok).data = .outbox outbox)
    (htree : outbox'.tree = outbox.tree) :
    Sound rt { s with chain := Function.update s.chain ok { s.chain ok with data := .outbox outbox' } } := by
  refine ⟨hs.chain.setOutbox hrt hok howner hdata htree, hs.defaultIsm.congr ?_ rfl, hs.verified, hs.inOrder⟩
  refine Function.update_of_ne (fun heq => ?_) _ _
  cases hrt.pda_inj (.inr rfl) (heq.trans hok)

/-- a default ISM is set -/
theorem Sound.setInbox (hrt : rt.Lawful) (hs : Sound rt s) {ik : Pubkey} {inbox inbox' : Inbox} (hik : ik = rt.pda .inbox)
    (howner : (s.chain ik).owner = rt.programId) (hdata : (s.chain ik).data = .inbox inbox)
    (hcount : inbox'.processedCount = inbox.processedCount) :
    Sound rt ⟨Function.update s.chain ik { s.chain ik with data := .inbox inbox' },
      s.history ++ [.setDefaultIsm inbox'.defaultIsm]⟩ := by
  have hstored : (Function.update s.chain ik { s.chain ik with data := .inbox inbox' } (rt.pda .inbox)).data =
      .inbox inbox' := by
    rw [hik, Function.update_self]
  refine ⟨?_, DefaultIsm.of_written hstored (defaultIsmOf_concat _ _), hs.verified.other fun _ _ _ => Event.noConfusion, ?_⟩
  · rw [handledIds_append, dispatches_append]
    simp only [handledIds, dispatches, List.filterMap_cons, List.filterMap_nil, List.append_nil]
    exact hs.chain.setInbox hrt hik howner hdata hcount
  · rw [dispatches_append]
    exact (List.append_nil _).symm ▸ hs.inOrder

theorem processInstruction_sound (hrt : rt.Lawful) (hs : Sound rt s) {instruction : Instruction}
    (h : processInstruction env s accounts instruction = .ok s') : Sound rt s' := by
  cases instruction with
  | Init init => exact initializeMailbox_sound hrt hs h
  | InboxProcess process => exact inboxProcess_sound hrt hs h
  | InboxSetDefaultIsm ism =>
    obtain ⟨⟨inboxInfo, accounts₁⟩, -, h⟩ := bind_eq_ok.1 h
    obtain ⟨inbox, hinbox, h⟩ := bind_eq_ok.1 h
    obtain ⟨⟨outboxInfo, accounts₂⟩, -, h⟩ := bind_eq_ok.1 h
    obtain ⟨outbox, -, h⟩ := bind_eq_ok.1 h
    obtain ⟨⟨ownerInfo, accounts₃⟩, -, h⟩ := bind_eq_ok.1 h
    obtain ⟨u, -, h⟩ := bind_eq_ok.1 h
    obtain ⟨-, h⟩ := ensure_bind.1 h
    obtain ⟨chain₁, hstore, h⟩ := bind_eq_ok.1 h
    cases h
    obtain ⟨hik, howner, hdata⟩ := verifyInbox_spec hrt hs.chain hinbox
    rw [store_eq_ok hstore]
    exact hs.setInbox hrt hik howner hdata rfl
  | OutboxDispatch dispatch => exact outboxDispatch_sound hrt hs h
  | TransferOwnership newOwner =>
    obtain ⟨⟨outboxInfo, accounts₁⟩, -, h⟩ := bind_eq_ok.1 h
    obtain ⟨outbox, houtbox, h⟩ := bind_eq_ok.1 h
    obtain ⟨⟨ownerInfo, accounts₂⟩, -, h⟩ := bind_eq_ok.1 h
    obtain ⟨u, -, h⟩ := bind_eq_ok.1 h
    obtain ⟨chain₁, hstore, h⟩ := bind_eq_ok.1 h
    cases h
    obtain ⟨hok, howner, hdata⟩ := verifyOutbox_spec hrt hs.chain houtbox
    rw [store_eq_ok hstore]
    exact hs.setOutbox hrt hok howner hdata rfl
  | SetProtocolFeeConfig newProtocolFeeConfig =>
    obtain ⟨⟨outboxInfo, accounts₁⟩, -, h⟩ := bind_eq_ok.1 h
    obtain ⟨outbox, houtbox, h⟩ := bind_eq_ok.1 h
    obtain ⟨⟨ownerInfo, accounts₂⟩, -, h⟩ := bind_eq_ok.1 h
    obtain ⟨u, -, h⟩ := bind_eq_ok.1 h
    obtain ⟨-, h⟩ := ensure_bind.1 h
    obtain ⟨chain₁, hstore, h⟩ := bind_eq_ok.1 h
    cases h
    obtain ⟨hok, howner, hdata⟩ := verifyOutbox_spec hrt hs.chain houtbox
    rw [store_eq_ok hstore]
    exact hs.setOutbox hrt hok howner hdata rfl

/-! ## Runs -/

theorem Step.exec_sound (hrt : rt.Lawful) (hs : Sound rt s) {step : Step rt} (h : step.exec s = .ok s') : Sound rt s' := by
  cases step with
  | mailbox env accounts instruction => exact processInstruction_sound hrt hs h
  | other callee =>
    unfold Step.exec at h
    dsimp only at h
    split at h
    · cases h
    · rename_i u chain hrun
      cases h
      have hforeign := callee.foreign _ _ _ hrun
      exact ⟨hs.chain.foreign hrt hforeign, hs.defaultIsm.congr (hforeign.pda hrt .inbox) rfl, hs.verified, hs.inOrder⟩

theorem transact_sound (hrt : rt.Lawful) (hs : Sound rt s) (steps : List (Step rt)) : Sound rt (transact s steps) := by
  have hfold : Ends (fun _ => True) (Sound rt) (steps.foldlM Step.exec s) := by
    refine Ends.foldlM (Sound rt) (fun s step hs => ?_) steps s hs
    cases hexec : step.exec s with
    | ok s' => exact Step.exec_sound hrt hs hexec
    | error e => trivial
  unfold transact
  split
  · rename_i s' hok
    exact hfold.of_ok hok
  · exact hs

theorem run_sound (hrt : rt.Lawful) (hs : Sound rt s) (txs : List (List (Step rt))) : Sound rt (run s txs) := by
  unfold run
  induction txs generalizing s with
  | nil => exact hs
  | cons tx txs ih => exact ih (transact_sound hrt hs tx)

variable (rt chain) in
/-- the program is deployed and has written nothing -/
def Genesis : Prop := ∀ key, (chain key).owner = rt.programId →
  ((chain key).data = .empty ∨ (chain key).data = .blank) ∧ ∀ seeds bump, rt.createProgramAddress seeds bump ≠ some key

theorem genesis_sound (h : Genesis rt chain) : Sound rt ⟨chain, []⟩ := by
  refine ⟨⟨?_, ?_, ?_, fun _ => rfl, fun _ => rfl⟩, ?_, ⟨?_, ?_⟩, ?_⟩
  · intro key howner
    obtain ⟨hdata, hnew⟩ := h key howner
    rcases hdata with hempty | hblank
    · rw [hempty]
      exact hnew
    · rw [hblank]
      exact hnew
  · intro i id hi
    cases hi
  · intro i m hi
    cases hi
  · intro inbox howner hdata
    rcases (h _ howner).1 with hempty | hblank
    · cases hdata.symm.trans hempty
    · cases hdata.symm.trans hblank
  · intro i recipient origin sender body returned hi
    cases hi
  · intro i program id returned hi
    cases hi
  · intro i m hi
    cases hi

/-- entries that are found again by what is stored for them are distinct -/
theorem nodup_of_stored {α : Type} {l : List α} (position : α → Option ℕ)
    (h : ∀ i a, l[i]? = some a → position a = some i) : l.Nodup := by
  rw [List.nodup_iff_getElem?_ne_getElem?]
  intro i j hij hj heq
  have hsome : l[j]? = some l[j] := List.getElem?_eq_getElem hj
  have hi := h i l[j] (heq.trans hsome)
  have hj' := h j l[j] hsome
  rw [hi] at hj'
  exact absurd (Option.some.inj hj') (Nat.ne_of_lt hij)

/-- the nonce stored with a unique message account -/
def nonceOf (rt : Runtime) (chain : Chain) (uniqueMessage : Pubkey) : Option ℕ :=
  match (chain (rt.pda (.dispatchedMessage uniqueMessage))).data with
  | .dispatched d => some d.nonce.toNat
  | _ => none

/-- **The outbox.** After every list of transactions, with any accounts and any foreign programs: the nonces of the
dispatched messages count from zero; the sender of each, or its dispatch authority, has signed, and so has a unique
account that no other message has; each message is stored under that account; and what passes for the outbox holds the
tree of their ids. -/
theorem outbox_safety (hrt : rt.Lawful) (hgenesis : Genesis rt chain) (txs : List (List (Step rt))) :
    let s := run ⟨chain, []⟩ txs
    SentInOrder rt (dispatches s.history) ∧ ((dispatches s.history).map Sent.uniqueMessage).Nodup ∧
      (∀ m ∈ dispatches s.history, ∃ slot, s.chain (rt.pda (.dispatchedMessage m.uniqueMessage)) =
        ⟨rt.programId, false, .dispatched ⟨m.message.nonce, slot, m.uniqueMessage, m.message.encode⟩⟩) ∧
      ∀ info outbox, verifyOutbox rt s.chain info = .ok outbox →
        outbox.tree.count = (dispatches s.history).length ∧ outbox.tree.root rt.crypto.tree =
          rt.crypto.tree.merkleRoot ((dispatches s.history).map fun m => m.message.id rt.crypto) := by
  intro s
  have hs : Sound rt s := run_sound hrt (genesis_sound hgenesis) txs
  refine ⟨hs.inOrder, ?_, ?_, ?_⟩
  · refine nodup_of_stored (nonceOf rt s.chain) fun i unique hi => ?_
    rw [List.getElem?_map, Option.map_eq_some_iff] at hi
    obtain ⟨m, hm, rfl⟩ := hi
    obtain ⟨slot, hslot⟩ := hs.chain.sent_stored i m hm
    unfold nonceOf
    rw [hslot]
    exact congrArg some (hs.inOrder i m hm).1
  · intro m hm
    obtain ⟨i, hi⟩ := List.mem_iff_getElem?.1 hm
    exact hs.chain.sent_stored i m hi
  · intro info outbox houtbox
    obtain ⟨-, howner, hdata⟩ := verifyOutbox_spec hrt hs.chain houtbox
    have hholds := hs.chain.owned _ howner
    rw [hdata] at hholds
    obtain ⟨hcount, hcap⟩ := IncrementalMerkle.ingestAll_count hholds.2
    have hcap := hcap (Nat.zero_le _)
    have hcount : outbox.tree.count = (dispatches s.history).length := by
      simpa [IncrementalMerkle.default] using hcount
    have hfits : ((dispatches s.history).map fun m => m.message.id rt.crypto).length ≤ Accumulator.U32_MAX := by
      rw [List.length_map, ← hcount]
      exact hcap
    obtain ⟨tree, htree, hrepresents⟩ := IncrementalMerkle.ingestAll_default rt.crypto.tree _ hfits
    have hsame : tree = outbox.tree := Option.some.inj (htree.symm.trans hholds.2)
    rw [← hsame] at hcount ⊢
    exact ⟨hcount, hrepresents.root_eq hfits⟩

/-! ## A chain -/

open Hyperlane.Relayer (toyCrypto toyWord)

/-- a tag and the last bytes of a word -/
def tagged (tag : UInt8) (w : Word 32) : Pubkey := ⟨tag :: w.1.tail, by simp [w.2]⟩

def toyAddress : Seeds → Pubkey
  | .inbox => tagged 1 (toyWord 0)
  | .outbox => tagged 2 (toyWord 0)
  | .processAuthority recipient => tagged 3 recipient
  | .processedMessage id => tagged 4 id
  | .dispatchedMessage uniqueMessage => tagged 5 uniqueMessage

/-- program 9 with the system program 0 and the noop program 8 -/
def toyRuntime : Runtime where
  programId := toyWord 9
  systemProgram := toyWord 0
  splNoop := toyWord 8
  crypto := toyCrypto
  findProgramAddress seeds := (toyAddress seeds, 255)
  createProgramAddress seeds bump := if bump = 255 then some (toyAddress seeds) else none
  dispatchAuthority := tagged 6
  parseInbox _ := none
  parseOutbox _ := none

theorem toyRuntime_lawful : toyRuntime.Lawful where
  find _ := rfl
  counters {seeds seeds' bump bump' key} hseeds h h' := by
    simp only [toyRuntime, Option.ite_none_right_eq_some, Option.some.injEq] at h h'
    have hhead : (toyAddress seeds').1.head? = (toyAddress seeds).1.head? := by rw [h.2, h'.2]
    rcases hseeds with rfl | rfl
    · cases seeds' with
      | inbox => rfl
      | _ => cases hhead
    · cases seeds' with
      | outbox => rfl
      | _ => cases hhead
  programId_ne := by decide

/-- a program that changes nothing, and names no ISM -/
def idle : Callee toyRuntime ReturnData where
  run chain := some (none, chain)
  foreign chain _ chain' h := by
    cases h
    exact ⟨fun _ _ => rfl, fun _ _ _ _ => rfl, fun _ howner => .inl howner⟩

def toyEnv : Env toyRuntime := ⟨100, true, fun _ _ _ => idle⟩

/-- every account is the system program's, and executable if it is the noop program or a recipient -/
def toyChain : Chain := fun key => ⟨toyWord 0, key = toyWord 8 ∨ key = toyWord 20, .empty⟩

def signer (key : Pubkey) : AccountMeta := ⟨key, true, true⟩

def writable (key : Pubkey) : AccountMeta := ⟨key, false, true⟩

def toyInit : Step toyRuntime :=
  .mailbox toyEnv [writable (toyWord 0), signer (toyWord 50), writable (toyAddress .inbox), writable (toyAddress .outbox)]
    (.Init ⟨7, toyWord 30, 10, ⟨1, toyWord 60⟩⟩)

/-- a message from domain 1 for recipient 20 -/
def toyIncoming (nonce : UInt32) : HyperlaneMessage := ⟨3, nonce, 1, toyWord 11, 7, toyWord 20, [1, 2]⟩

def toyProcess (nonce : UInt32) : Step toyRuntime :=
  .mailbox toyEnv [signer (toyWord 50), writable (toyWord 0), writable (toyAddress .inbox),
    writable (toyAddress (.processAuthority (toyWord 20))),
    writable (toyAddress (.processedMessage ((toyIncoming nonce).id toyCrypto))), writable (toyWord 8),
    writable (toyWord 30), writable (toyWord 20)] (.InboxProcess ⟨[], (toyIncoming nonce).encode⟩)

def toyDispatch (unique : ℕ) : Step toyRuntime :=
  .mailbox toyEnv [writable (toyAddress .outbox), signer (toyWord 50), writable (toyWord 0), writable (toyWord 8),
    signer (toyWord 50), signer (toyWord unique), writable (toyAddress (.dispatchedMessage (toyWord unique)))]
    (.OutboxDispatch ⟨toyWord 50, 3, toyWord 70, [5]⟩)

/-- two messages are processed, one of them is tried again, and two are dispatched -/
def toyTxs : List (List (Step toyRuntime)) :=
  [[toyInit], [toyProcess 4], [toyProcess 4, toyDispatch 77], [toyProcess 5, toyDispatch 78], [toyDispatch 79]]

theorem toyChain_genesis : Genesis toyRuntime toyChain := by
  intro key howner
  exact absurd howner.symm toyRuntime_lawful.programId_ne

theorem toyTxs_counts :
    (handledIds (run ⟨toyChain, []⟩ toyTxs).history).length = 2 ∧
      (dispatches (run ⟨toyChain, []⟩ toyTxs).history).length = 2 := by
  decide +kernel

theorem outbox_safety_twice :
    (dispatches (run ⟨toyChain, []⟩ toyTxs).history).length = 2 ∧
      SentInOrder toyRuntime (dispatches (run ⟨toyChain, []⟩ toyTxs).history) :=
  ⟨toyTxs_counts.2, (outbox_safety toyRuntime_lawful toyChain_genesis toyTxs).1⟩

end Hyperlane.SealevelMailbox
