import Mathlib

/-!
# Accounts settled by tickets

Each account has a balance and at most one token. Issuing a token makes a ticket over the
whole balance; tickets may be copied, lost and found again, so only the set of those that
still exist is kept. A ticket whose token is still there can be settled: its amount leaves
the balance and the token is gone. Deposits go on meanwhile, up to a limit of the balance.

Identities are issued once. In every state that such moves reach (`Sound`) a ticket under
the current token is covered by the balance, so settling never truncates: what an account
holds and what was settled from it add up to what was deposited (`Sound.conserved`), and
no identity is settled twice (`Sound.once`).
-/

namespace Library

/-- A claim on an amount of an account, under an identity. -/
@[ext] structure Ticket (K I M : Type*) where
  key : K
  id : I
  amount : M

/-- Accounts with their tokens, and the tickets in circulation. -/
structure TokenLedger (K I M : Type*) where
  balance : K → M
  token : K → Option I
  tickets : Set (Ticket K I M)
  issued : Set I
  deposited : K → M
  settled : List (Ticket K I M)

namespace TokenLedger

variable {K I M : Type*} [DecidableEq K]

/-- What was settled from an account. -/
def settledAmount [AddMonoid M] (settled : List (Ticket K I M)) (key : K) : M :=
  ((settled.filter (·.key = key)).map (·.amount)).sum

theorem settledAmount_cons [AddMonoid M] (ticket : Ticket K I M) (settled : List (Ticket K I M))
    (key : K) :
    settledAmount (ticket :: settled) key =
      if ticket.key = key then ticket.amount + settledAmount settled key
      else settledAmount settled key := by
  by_cases same : ticket.key = key
  · simp [settledAmount, same]
  · simp [settledAmount, same]

variable [AddCommMonoid M]

/-- One move of the ledger. -/
inductive Move [PartialOrder M] [Sub M] (limit : M) (l : TokenLedger K I M) :
    TokenLedger K I M → Prop where
  /-- Tickets get lost, and identities are used up elsewhere. -/
  | keep {tickets : Set (Ticket K I M)} {issued : Set I} (fewer : tickets ⊆ l.tickets)
      (more : l.issued ⊆ issued) : Move limit l { l with tickets, issued }
  | deposit (key : K) (amount : M) (fits : l.balance key + amount ≤ limit) : Move limit l { l with
      balance := Function.update l.balance key (l.balance key + amount)
      deposited := Function.update l.deposited key (l.deposited key + amount) }
  | issue (key : K) (id : I) (fresh : id ∉ l.issued) : Move limit l { l with
      token := Function.update l.token key (some id)
      tickets := insert ⟨key, id, l.balance key⟩ l.tickets
      issued := insert id l.issued }
  | release (key : K) : Move limit l { l with token := Function.update l.token key none }
  | settle (ticket : Ticket K I M) (held : ticket ∈ l.tickets)
      (current : l.token ticket.key = some ticket.id) : Move limit l { l with
      balance := Function.update l.balance ticket.key (l.balance ticket.key - ticket.amount)
      token := Function.update l.token ticket.key none
      settled := ticket :: l.settled }

/-- What holds of every ledger that moves reach. -/
structure Sound [PartialOrder M] (limit : M) (l : TokenLedger K I M) : Prop where
  bounded : ∀ key, l.balance key ≤ limit
  conserved : ∀ key, l.balance key + settledAmount l.settled key = l.deposited key
  covered : ∀ ticket ∈ l.tickets, l.token ticket.key = some ticket.id →
    ticket.amount ≤ l.balance ticket.key
  single : ∀ first ∈ l.tickets, ∀ second ∈ l.tickets, first.id = second.id → first = second
  once : (l.settled.map (·.id)).Nodup
  unsettled : ∀ key id, l.token key = some id → id ∉ l.settled.map (·.id)
  apart : ∀ key other id, l.token key = some id → l.token other = some id → key = other
  ticketIssued : ∀ ticket ∈ l.tickets, ticket.id ∈ l.issued
  tokenIssued : ∀ key id, l.token key = some id → id ∈ l.issued
  settledIssued : ∀ id ∈ l.settled.map (·.id), id ∈ l.issued

namespace Sound

variable [PartialOrder M] {limit : M} {l : TokenLedger K I M} (sound : l.Sound limit)
include sound

theorem keep {tickets : Set (Ticket K I M)} {issued : Set I} (fewer : tickets ⊆ l.tickets)
    (more : l.issued ⊆ issued) : Sound limit { l with tickets, issued } where
  bounded := sound.bounded
  conserved := sound.conserved
  covered ticket held := sound.covered ticket (fewer held)
  single first one second two := sound.single first (fewer one) second (fewer two)
  once := sound.once
  unsettled := sound.unsettled
  apart := sound.apart
  ticketIssued ticket held := more (sound.ticketIssued ticket (fewer held))
  tokenIssued key id token := more (sound.tokenIssued key id token)
  settledIssued id settled := more (sound.settledIssued id settled)

theorem deposit [CanonicallyOrderedAdd M] (key : K) (amount : M)
    (fits : l.balance key + amount ≤ limit) : Sound limit { l with
    balance := Function.update l.balance key (l.balance key + amount)
    deposited := Function.update l.deposited key (l.deposited key + amount) } where
  bounded other := by
    by_cases same : other = key
    · subst same
      simp only [Function.update_self]
      exact fits
    · simp only [Function.update_of_ne same]
      exact sound.bounded other
  conserved other := by
    by_cases same : other = key
    · subst same
      simp only [Function.update_self]
      rw [add_right_comm, sound.conserved]
    · simp only [Function.update_of_ne same]
      exact sound.conserved other
  covered ticket held current := by
    have covered := sound.covered ticket held current
    by_cases same : ticket.key = key
    · subst same
      simp only [Function.update_self]
      exact covered.trans le_self_add
    · simp only [Function.update_of_ne same]
      exact covered
  single := sound.single
  once := sound.once
  unsettled := sound.unsettled
  apart := sound.apart
  ticketIssued := sound.ticketIssued
  tokenIssued := sound.tokenIssued
  settledIssued := sound.settledIssued

theorem issue (key : K) (id : I) (fresh : id ∉ l.issued) : Sound limit { l with
    token := Function.update l.token key (some id)
    tickets := insert ⟨key, id, l.balance key⟩ l.tickets
    issued := insert id l.issued } where
  bounded := sound.bounded
  conserved := sound.conserved
  covered ticket held current := by
    rcases held with rfl | held
    · exact le_rfl
    · by_cases same : ticket.key = key
      · -- An older ticket cannot carry an identity that was not issued before.
        rw [same] at current
        simp only [Function.update_self, Option.some.injEq] at current
        exact absurd (current ▸ sound.ticketIssued ticket held) fresh
      · simp only [Function.update_of_ne same] at current
        exact sound.covered ticket held current
  single first one second two equal := by
    have apartFrom : ∀ ticket ∈ l.tickets, ticket.id ≠ id := by
      intro ticket held same
      exact fresh (same ▸ sound.ticketIssued ticket held)
    rcases one with rfl | one
    · rcases two with rfl | two
      · rfl
      · exact (apartFrom second two equal.symm).elim
    · rcases two with rfl | two
      · exact (apartFrom first one equal).elim
      · exact sound.single first one second two equal
  once := sound.once
  unsettled other token held := by
    by_cases same : other = key
    · subst same
      simp only [Function.update_self, Option.some.injEq] at held
      subst held
      exact fun settled => fresh (sound.settledIssued _ settled)
    · simp only [Function.update_of_ne same] at held
      exact sound.unsettled other token held
  apart first second token one two := by
    have old : ∀ other, other ≠ key → Function.update l.token key (some id) other = some token →
        token ∈ l.issued ∧ l.token other = some token := by
      intro other different held
      rw [Function.update_of_ne different] at held
      exact ⟨sound.tokenIssued other token held, held⟩
    by_cases sameOne : first = key
    · by_cases sameTwo : second = key
      · rw [sameOne, sameTwo]
      · subst sameOne
        simp only [Function.update_self, Option.some.injEq] at one
        exact absurd (one ▸ (old second sameTwo two).1) fresh
    · by_cases sameTwo : second = key
      · subst sameTwo
        simp only [Function.update_self, Option.some.injEq] at two
        exact absurd (two ▸ (old first sameOne one).1) fresh
      · exact sound.apart first second token (old first sameOne one).2 (old second sameTwo two).2
  ticketIssued ticket held := by
    rcases held with rfl | held
    · exact Set.mem_insert _ _
    · exact Set.mem_insert_of_mem _ (sound.ticketIssued ticket held)
  tokenIssued other token held := by
    by_cases same : other = key
    · subst same
      simp only [Function.update_self, Option.some.injEq] at held
      exact held ▸ Set.mem_insert _ _
    · simp only [Function.update_of_ne same] at held
      exact Set.mem_insert_of_mem _ (sound.tokenIssued other token held)
  settledIssued other settled := Set.mem_insert_of_mem _ (sound.settledIssued other settled)

omit sound in
/-- Taking away a token leaves the other tokens. -/
theorem token_of_cleared {token : K → Option I} {key other : K} {id : I}
    (held : Function.update token key none other = some id) : token other = some id := by
  by_cases same : other = key
  · subst same
    simp at held
  · rwa [Function.update_of_ne same] at held

theorem release (key : K) : Sound limit { l with token := Function.update l.token key none } where
  bounded := sound.bounded
  conserved := sound.conserved
  covered ticket held current := sound.covered ticket held (token_of_cleared current)
  single := sound.single
  once := sound.once
  unsettled other id held := sound.unsettled other id (token_of_cleared held)
  apart first second id one two :=
    sound.apart first second id (token_of_cleared one) (token_of_cleared two)
  ticketIssued := sound.ticketIssued
  tokenIssued other id held := sound.tokenIssued other id (token_of_cleared held)
  settledIssued := sound.settledIssued

theorem settle [CanonicallyOrderedAdd M] [AddLeftMono M] [Sub M] [OrderedSub M]
    (ticket : Ticket K I M)
    (held : ticket ∈ l.tickets) (current : l.token ticket.key = some ticket.id) :
    Sound limit { l with
    balance := Function.update l.balance ticket.key (l.balance ticket.key - ticket.amount)
    token := Function.update l.token ticket.key none
    settled := ticket :: l.settled } where
  bounded key := by
    by_cases same : key = ticket.key
    · subst same
      simp only [Function.update_self]
      exact tsub_le_self.trans (sound.bounded ticket.key)
    · simp only [Function.update_of_ne same]
      exact sound.bounded key
  conserved key := by
    rw [settledAmount_cons]
    by_cases same : ticket.key = key
    · subst same
      simp only [Function.update_self, if_true]
      have covered := sound.covered ticket held current
      rw [← add_assoc, tsub_add_cancel_of_le covered, sound.conserved]
    · simp only [Function.update_of_ne (Ne.symm same), if_neg same]
      exact sound.conserved key
  covered other kept token := by
    by_cases same : other.key = ticket.key
    · rw [same] at token
      simp at token
    · simp only [Function.update_of_ne same] at token ⊢
      exact sound.covered other kept token
  single := sound.single
  once := List.nodup_cons.mpr ⟨sound.unsettled _ _ current, sound.once⟩
  unsettled key id token settled := by
    have before := token_of_cleared token
    rcases List.mem_cons.mp settled with equal | settled
    · -- The account that held this identity has just lost its token.
      have same : key = ticket.key := sound.apart key ticket.key id before (equal ▸ current)
      rw [same] at token
      simp at token
    · exact sound.unsettled key id before settled
  apart first second id one two :=
    sound.apart first second id (token_of_cleared one) (token_of_cleared two)
  ticketIssued := sound.ticketIssued
  tokenIssued key id token := sound.tokenIssued key id (token_of_cleared token)
  settledIssued id settled := by
    rcases List.mem_cons.mp settled with rfl | settled
    · exact sound.tokenIssued _ _ current
    · exact sound.settledIssued id settled

end Sound

variable {l m : TokenLedger K I M}

/-- **Every move keeps a sound ledger sound.** -/
theorem Move.sound [PartialOrder M] [CanonicallyOrderedAdd M] [AddLeftMono M] [Sub M]
    [OrderedSub M] {limit : M} (move : Move limit l m) (sound : l.Sound limit) : m.Sound limit := by
  cases move with
  | keep fewer more => exact sound.keep fewer more
  | deposit key amount fits => exact sound.deposit key amount fits
  | issue key id fresh => exact sound.issue key id fresh
  | release key => exact sound.release key
  | settle ticket held current => exact sound.settle ticket held current

/-- Moves that end in a ledger reach every ledger that differs only by lost tickets and by
identities used up elsewhere. -/
theorem moves_keep [PartialOrder M] [Sub M] {limit : M} {n : TokenLedger K I M}
    (moves : Relation.ReflTransGen (Move limit) l m) (balance : n.balance = m.balance)
    (token : n.token = m.token) (deposited : n.deposited = m.deposited)
    (settled : n.settled = m.settled) (fewer : n.tickets ⊆ m.tickets) (more : m.issued ⊆ n.issued) :
    Relation.ReflTransGen (Move limit) l n := by
  have last : Move limit m { m with tickets := n.tickets, issued := n.issued } :=
    Move.keep fewer more
  have same : { m with tickets := n.tickets, issued := n.issued } = n := by
    rw [← balance, ← token, ← deposited, ← settled]
  exact moves.tail (same ▸ last)

/-- **Soundness along any number of moves.** -/
theorem Sound.moves [PartialOrder M] [CanonicallyOrderedAdd M] [AddLeftMono M] [Sub M]
    [OrderedSub M] {limit : M} (sound : l.Sound limit)
    (moves : Relation.ReflTransGen (Move limit) l m) : m.Sound limit := by
  induction moves with
  | refl => exact sound
  | tail _ move ih => exact move.sound ih

end TokenLedger

end Library
