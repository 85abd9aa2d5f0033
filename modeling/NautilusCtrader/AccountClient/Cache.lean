import NautilusCtrader.AccountClient.Users
import Mathlib.Data.List.Induction

/-!
# One session per account

The cache keeps one client per login and application, and puts a successor in its place once the client's
event loop is closed. A replaced client never connects again, so of all the clients built for an account
one at most runs a session on a loop that is open (`one_session`), and the client cached has the newest
pair of tokens any of them was given (`newest_tokens`).
-/

namespace NautilusCtrader

open Common Instruments

namespace AccountClient

/-! ## What a run tells of an account -/

/-- What was told of the clients of one key. -/
def recordsOfKey (key : ℤ × String) (told : List Told) : List Record :=
  told.filterMap fun
    | .client k _ record => if k = key then some record else none
    | .found _ _ => none

/-- The credentials a look-up of the key passes. -/
def Event.asks (key : ℤ × String) : Event → Option AccountCredentials
  | .lookUp settings credentials =>
    if (settings.traderLogin, credentials.clientId) = key then some credentials else none
  | _ => none

/-- The credentials known of an account: those of the first look-up, renewed with every pair taken
since. -/
def knownCredentials (key : ℤ × String) (events : List Event) (told : List Told) :
    Option AccountCredentials :=
  (events.findSome? (Event.asks key)).map ((recordsOfKey key told).foldl Record.renews)

/-- What the clients of a key tell one after the other. -/
theorem recordsOfKey_append (key : ℤ × String) (told more : List Told) :
    recordsOfKey key (told ++ more) = recordsOfKey key told ++ recordsOfKey key more :=
  List.filterMap_append

/-- What one client tells counts for its own key only. -/
theorem recordsOfKey_client (key k : ℤ × String) (index : ℕ) (records : List Record) :
    recordsOfKey key (records.map (.client k index)) = if k = key then records else [] := by
  unfold recordsOfKey
  rw [List.filterMap_map]
  split
  · rename_i heq
    simp [heq]
  · rename_i hne
    simp [hne]

/-- A client that is found hands out no credentials. -/
theorem knownCredentials_found (key : ℤ × String) (events : List Event) (told : List Told)
    (k : ℤ × String) (index : ℕ) :
    knownCredentials key events (told ++ [.found k index]) = knownCredentials key events told := by
  unfold knownCredentials
  rw [recordsOfKey_append]
  exact congrArg (fun records => (events.findSome? (Event.asks key)).map
    (records.foldl Record.renews)) (List.append_nil _)

/-- What is known goes on being known, whatever is looked up. -/
theorem knownCredentials_concat {key : ℤ × String} {events : List Event} {told : List Told}
    {credentials : AccountCredentials} (h : knownCredentials key events told = some credentials)
    (event : Event) : knownCredentials key (events ++ [event]) told = some credentials := by
  unfold knownCredentials at h ⊢
  obtain ⟨first, hfirst, hrenewed⟩ := Option.map_eq_some_iff.mp h
  rw [List.findSome?_append, hfirst, Option.some_or, Option.map_some, hrenewed]

/-! ## What a step leaves of a client -/

namespace Client

variable {c c' : Client} {p : Client × List Record}

/-- Renewed tokens are those of the same application. -/
theorem foldl_renews_clientId (records : List Record) (credentials : AccountCredentials) :
    (records.foldl Record.renews credentials).clientId = credentials.clientId := by
  induction records generalizing credentials with
  | nil => rfl
  | cons record records ih =>
    rw [List.foldl_cons, ih]
    cases record <;> rfl

/-- A client keeps its key. -/
theorem Sound.key (h : c.Sound p) : p.1.key = c.key := by
  unfold Client.key
  rw [h.settings, h.credentials, foldl_renews_clientId]

/-- What reaches a client that was replaced leaves its sessions and its loop, and tells of no pair. -/
theorem replaced_step {w : World} (hretired : c.retired = true)
    (hclosed : c.loopClosed w.closed = true) {input : Input} (hreaches : w.reaches c input = true) :
    (c.step w.closed input).1.sessions = c.sessions ∧
      (c.step w.closed input).1.sessionLoop = c.sessionLoop ∧
      ∀ credentials, (c.step w.closed input).2.foldl Record.renews credentials = credentials := by
  cases input with
  | connect loop =>
    simp [Client.step, Client.connect, Client.otherLoopError, hretired, Record.renews]
  | addTokenListener listener =>
    by_cases hmem : listener ∈ c.tokenListeners
    · simp [Client.step, hmem]
    · simp [Client.step, hmem]
  | _ =>
    exfalso
    unfold World.reaches at hreaches
    rw [hclosed] at hreaches
    exact Bool.noConfusion hreaches

/-- A loop that is closed stays closed. -/
theorem loopClosed_insert (closed : Finset ℕ) (loop : ℕ) (h : c.loopClosed closed = true) :
    c.loopClosed (insert loop closed) = true := by
  unfold Client.loopClosed at h ⊢
  cases hown : c.sessionLoop with
  | none =>
    rw [hown] at h
    exact Bool.noConfusion h
  | some own =>
    rw [hown, Option.any_some, decide_eq_true_eq] at h
    rw [Option.any_some, decide_eq_true_eq]
    exact Finset.mem_insert_of_mem h

end Client

/-! ## The cache over a run -/

/-- The cache after `events`, which told `told`. -/
structure Cached (events : List Event) (told : List Told) (w : World) : Prop where
  /-- What is cached is a client of its key that was not replaced. -/
  cached : ∀ key (index : ℕ), w.accountClients.get? key = some index →
    ∃ c : Client, w.clients[index]? = some c ∧ c.key = key ∧ c.retired = false ∧
      knownCredentials key events told = some c.credentials
  /-- A client that was not replaced is cached. -/
  current : ∀ (index : ℕ) (c : Client), w.clients[index]? = some c → c.retired = false →
    w.accountClients.get? c.key = some index
  /-- One that was replaced belongs to a loop that is closed. -/
  replaced : ∀ (index : ℕ) (c : Client), w.clients[index]? = some c → c.retired = true →
    c.loopClosed w.closed = true
  fresh : ∀ key, w.accountClients.get? key = none →
    events.findSome? (Event.asks key) = none ∧ recordsOfKey key told = [] ∧
      ∀ c ∈ w.clients, c.key ≠ key

section Steps

variable {events : List Event} {told : List Told} {w : World}

/-- A new client is cached where no client of its key is left that was not replaced. -/
theorem cached_put {new : Client}
    (hcached : ∀ key ≠ new.key, ∀ index : ℕ, w.accountClients.get? key = some index →
      ∃ c : Client, w.clients[index]? = some c ∧ c.key = key ∧ c.retired = false ∧
        knownCredentials key events told = some c.credentials)
    (hcurrent : ∀ (index : ℕ) (c : Client), w.clients[index]? = some c → c.retired = false →
      c.key ≠ new.key ∧ w.accountClients.get? c.key = some index)
    (hreplaced : ∀ (index : ℕ) (c : Client), w.clients[index]? = some c → c.retired = true →
      c.loopClosed w.closed = true)
    (hfresh : ∀ key ≠ new.key, w.accountClients.get? key = none →
      events.findSome? (Event.asks key) = none ∧ recordsOfKey key told = [] ∧
        ∀ c ∈ w.clients, c.key ≠ key)
    (hretired : new.retired = false)
    (hknown : knownCredentials new.key events told = some new.credentials) :
    Cached events told
      { w with
        clients := w.clients ++ [new]
        accountClients := w.accountClients.set new.key w.clients.length } := by
  have hlast : (w.clients ++ [new])[w.clients.length]? = some new := by
    rw [List.getElem?_append_right (Nat.le_refl _), Nat.sub_self]
    rfl
  have hcases {index : ℕ} {c : Client} (hc : (w.clients ++ [new])[index]? = some c) :
      w.clients[index]? = some c ∨ index = w.clients.length ∧ c = new := by
    rcases Nat.lt_or_ge index w.clients.length with hlt | hge
    · rw [List.getElem?_append_left hlt] at hc
      exact .inl hc
    · rw [List.getElem?_append_right hge, List.getElem?_singleton] at hc
      split at hc
      · exact .inr ⟨by omega, (Option.some.inj hc).symm⟩
      · cases hc
  -- only the new client's key is another's after it; each other entry and client is as it was
  refine ⟨fun key index hget => ?_, fun index c hc hlive => ?_, fun index c hc hgone => ?_,
    fun key hnone => ?_⟩
  · by_cases hkey : key = new.key
    · subst hkey
      rw [Dict.get?_set, if_pos rfl] at hget
      obtain rfl := Option.some.inj hget
      exact ⟨new, hlast, rfl, hretired, hknown⟩
    · rw [Dict.get?_set_of_ne _ _ (Ne.symm hkey)] at hget
      obtain ⟨c, hc, hrest⟩ := hcached key hkey index hget
      have hlt := (List.getElem?_eq_some_iff.mp hc).1
      exact ⟨c, by rw [List.getElem?_append_left hlt]; exact hc, hrest⟩
  · rcases hcases hc with hold | ⟨rfl, rfl⟩
    · obtain ⟨hne, hget⟩ := hcurrent index c hold hlive
      show (w.accountClients.set new.key w.clients.length).get? c.key = some index
      rw [Dict.get?_set_of_ne _ _ (Ne.symm hne)]
      exact hget
    · show (w.accountClients.set c.key w.clients.length).get? c.key = some w.clients.length
      rw [Dict.get?_set, if_pos rfl]
  · rcases hcases hc with hold | ⟨-, rfl⟩
    · exact hreplaced index c hold hgone
    · rw [hretired] at hgone
      cases hgone
  · have hne : key ≠ new.key := by
      rintro rfl
      rw [Dict.get?_set, if_pos rfl] at hnone
      cases hnone
    rw [Dict.get?_set_of_ne _ _ (Ne.symm hne)] at hnone
    obtain ⟨hunasked, huntold, hunbuilt⟩ := hfresh key hne hnone
    refine ⟨hunasked, huntold, fun c hc => ?_⟩
    rcases List.mem_append.mp hc with hold | hnew
    · exact hunbuilt c hold
    · rw [List.mem_singleton.mp hnew]
      exact Ne.symm hne

/-- A look-up for another key says nothing of this one's credentials. -/
theorem asks_eq_none {key : ℤ × String} {settings : Settings} {credentials : AccountCredentials}
    (h : (settings.traderLogin, credentials.clientId) ≠ key) :
    (Event.lookUp settings credentials).asks key = none :=
  if_neg h

/-- No client of the key was built before. -/
theorem Cached.build (h : Cached events told w) {settings : Settings}
    {credentials : AccountCredentials}
    (hnone : w.accountClients.get? (settings.traderLogin, credentials.clientId) = none) :
    Cached (events ++ [.lookUp settings credentials]) told
      { w with
        clients := w.clients ++ [{ settings, credentials }]
        accountClients := w.accountClients.set (settings.traderLogin, credentials.clientId)
          w.clients.length } := by
  obtain ⟨hasked, htold, -⟩ := h.fresh _ hnone
  refine @cached_put _ _ w { settings, credentials } ?_ ?_ h.replaced ?_ rfl ?_
  · intro key _ index hget
    obtain ⟨c, hc, hkey, hlive, hknown⟩ := h.cached key index hget
    exact ⟨c, hc, hkey, hlive, knownCredentials_concat hknown _⟩
  · intro index c hc hlive
    have hget := h.current index c hc hlive
    refine ⟨fun hkey => ?_, hget⟩
    rw [hkey] at hget
    exact absurd (hnone.symm.trans hget) (Option.some_ne_none _).symm
  · intro key hkey hget
    obtain ⟨hunasked, hrest⟩ := h.fresh key hget
    refine ⟨?_, hrest⟩
    rw [List.findSome?_append, hunasked, Option.none_or, List.findSome?_singleton]
    exact asks_eq_none (Ne.symm hkey)
  · show knownCredentials (settings.traderLogin, credentials.clientId) _ _ = some credentials
    unfold knownCredentials
    rw [htold, List.findSome?_append, hasked, Option.none_or, List.findSome?_singleton]
    show Option.map _ (ite _ _ _) = _
    rw [if_pos rfl]
    rfl

/-- A look-up that finds a client, or what happens to loops only, leaves the cache. -/
theorem Cached.leave (h : Cached events told w) (event : Event)
    (hasked : ∀ key, w.accountClients.get? key = none → event.asks key = none) {closed : Finset ℕ}
    (hclosed : ∀ c : Client, c.loopClosed w.closed = true → c.loopClosed closed = true) :
    Cached (events ++ [event]) told { w with closed } := by
  refine ⟨fun key index hget => ?_, h.current, fun index c hc hgone => ?_, fun key hnone => ?_⟩
  · obtain ⟨c, hc, hkey, hlive, hknown⟩ := h.cached key index hget
    exact ⟨c, hc, hkey, hlive, knownCredentials_concat hknown event⟩
  · exact hclosed c (h.replaced index c hc hgone)
  · obtain ⟨hunasked, hrest⟩ := h.fresh key hnone
    refine ⟨?_, hrest⟩
    rw [List.findSome?_append, hunasked, Option.none_or, List.findSome?_singleton]
    exact hasked key hnone

/-- A client that is found again changes nothing. -/
theorem Cached.found (h : Cached events told w) (key : ℤ × String) (index : ℕ) :
    Cached events (told ++ [.found key index]) w := by
  refine ⟨fun k i hget => ?_, h.current, h.replaced, fun k hnone => ?_⟩
  · rw [knownCredentials_found]
    exact h.cached k i hget
  · rw [recordsOfKey_append]
    obtain ⟨hunasked, huntold, hunbuilt⟩ := h.fresh k hnone
    exact ⟨hunasked, by rw [huntold]; rfl, hunbuilt⟩

/-- A client whose loop is closed is replaced. -/
theorem Cached.replace (h : Cached events told w) {index : ℕ} {c : Client}
    (hget : w.accountClients.get? c.key = some index) (hc : w.clients[index]? = some c)
    (hclosed : c.loopClosed w.closed = true) :
    Cached events told
      { w with
        clients := w.clients.set index { c with retired := true } ++ [c.successor]
        accountClients := w.accountClients.set c.key w.clients.length } := by
  have hcases {i : ℕ} {found : Client}
      (hfound : (w.clients.set index { c with retired := true })[i]? = some found) :
      index = i ∧ found = { c with retired := true } ∨ index ≠ i ∧ w.clients[i]? = some found := by
    rw [List.getElem?_set] at hfound
    split at hfound
    · rename_i heq
      split at hfound
      · exact .inl ⟨heq, (Option.some.inj hfound).symm⟩
      · cases hfound
    · rename_i hne
      exact .inr ⟨hne, hfound⟩
  -- the client is marked first, and then its successor is added as a new client is
  have hput := @cached_put events told
    { w with clients := w.clients.set index { c with retired := true } } c.successor
    ?_ ?_ ?_ (fun key _ hnone => ?_) rfl ?_
  · dsimp only at hput
    rw [List.length_set] at hput
    exact hput
  · intro key hkey i hi
    obtain ⟨found, hfound, hrest⟩ := h.cached key i hi
    refine ⟨found, ?_, hrest⟩
    rw [List.getElem?_set, if_neg]
    · exact hfound
    · rintro rfl
      obtain rfl := Option.some.inj (hc.symm.trans hfound)
      exact hkey hrest.1.symm
  · intro i found hfound hlive
    rcases hcases hfound with ⟨-, rfl⟩ | ⟨hne, hfound⟩
    · cases hlive
    · have hgot := h.current i found hfound hlive
      refine ⟨fun hkey => hne ?_, hgot⟩
      rw [hkey] at hgot
      exact Option.some.inj (hget.symm.trans hgot)
  · intro i found hfound hgone
    rcases hcases hfound with ⟨-, rfl⟩ | ⟨-, hfound⟩
    · exact hclosed
    · exact h.replaced i found hfound hgone
  · obtain ⟨hunasked, huntold, hunbuilt⟩ := h.fresh key hnone
    refine ⟨hunasked, huntold, fun found hfound => ?_⟩
    rcases List.mem_or_eq_of_mem_set hfound with hold | rfl
    · exact hunbuilt found hold
    · exact hunbuilt c (List.mem_of_getElem? hc)
  · obtain ⟨found, hfound, -, -, hknown⟩ := h.cached c.key index hget
    obtain rfl := Option.some.inj (hc.symm.trans hfound)
    exact hknown

/-- A look-up, which finds the cached client or has a new one take over from it. -/
theorem Cached.lookUp (h : Cached events told w) (settings : Settings)
    (credentials : AccountCredentials) :
    Cached (events ++ [.lookUp settings credentials]) (told ++ (w.lookUp settings credentials).2)
      (w.lookUp settings credentials).1 := by
  unfold World.lookUp
  dsimp only
  split
  · rename_i hnone
    exact (h.build hnone).found _ _
  · rename_i index hget
    have hleft : Cached (events ++ [.lookUp settings credentials]) told w := by
      refine h.leave _ (fun key hnone => asks_eq_none ?_) fun _ hclosed => hclosed
      rintro rfl
      exact absurd (hnone.symm.trans hget) (Option.some_ne_none _).symm
    obtain ⟨c, hc, hkey, -⟩ := h.cached _ index hget
    rw [hc]
    dsimp only
    split
    · rename_i hclosed
      rw [← hkey] at hget ⊢
      exact (hleft.replace hget hc hclosed).found _ _
    · exact hleft.found _ _

/-- What happens to one client. -/
theorem Cached.onClient (h : Cached events told w)
    (hsettled : ∀ (index : ℕ) (c : Client), w.clients[index]? = some c → c.Settled) (index : ℕ)
    (input : Input) :
    Cached (events ++ [.client index input]) (told ++ (w.onClient index input).2)
      (w.onClient index input).1 := by
  have hleft : Cached (events ++ [.client index input]) told w :=
    h.leave _ (fun _ _ => rfl) fun _ hclosed => hclosed
  unfold World.onClient
  split
  · rw [List.append_nil]
    exact hleft
  · rename_i c hc
    split
    case isFalse =>
      rw [List.append_nil]
      exact hleft
    case isTrue hreaches =>
      have hstep := (hsettled index c hc).step w.closed input
      have hkey : (c.step w.closed input).1.key = c.key := hstep.key
      have hlt := (List.getElem?_eq_some_iff.mp hc).1
      have hcases {i : ℕ} {found : Client}
          (hfound : (w.clients.set index (c.step w.closed input).1)[i]? = some found) :
          index = i ∧ found = (c.step w.closed input).1 ∨ index ≠ i ∧ w.clients[i]? = some found := by
        rw [List.getElem?_set] at hfound
        split at hfound
        · rename_i heq
          exact .inl ⟨heq, (Option.some.inj hfound).symm⟩
        · rename_i hne
          exact .inr ⟨hne, hfound⟩
      -- the step keeps the key and what the client was told, and a replaced client is told nothing
      refine ⟨fun key i hget => ?_, fun i found hfound hlive => ?_, fun i found hfound hgone => ?_,
        fun key hnone => ?_⟩
      · obtain ⟨found, hfound, hfoundKey, hlive, hknown⟩ := hleft.cached key i hget
        unfold knownCredentials at hknown ⊢
        obtain ⟨first, hfirst, hrenewed⟩ := Option.map_eq_some_iff.mp hknown
        rw [hfirst, Option.map_some, recordsOfKey_append, recordsOfKey_client, List.foldl_append,
          hrenewed]
        by_cases hi : index = i
        · subst hi
          obtain rfl := Option.some.inj (hc.symm.trans hfound)
          refine ⟨_, by rw [List.getElem?_set_self hlt], hkey.trans hfoundKey,
            hstep.retired.trans hlive, ?_⟩
          rw [if_pos hfoundKey, hstep.credentials]
        · refine ⟨found, by rw [List.getElem?_set_ne hi]; exact hfound, hfoundKey, hlive, ?_⟩
          split
          · -- a client of the key that is not the one cached was replaced
            rename_i hsame
            have hretired : c.retired = true := by
              by_contra hnot
              have hgot := hleft.current index c hc (Bool.not_eq_true _ ▸ hnot)
              rw [hsame] at hgot
              exact hi (Option.some.inj (hgot.symm.trans hget))
            rw [(Client.replaced_step hretired (h.replaced index c hc hretired) hreaches).2.2]
          · rfl
      · rcases hcases hfound with ⟨rfl, rfl⟩ | ⟨-, hfound⟩
        · rw [hkey]
          exact h.current index c hc (hstep.retired ▸ hlive)
        · exact h.current i found hfound hlive
      · rcases hcases hfound with ⟨rfl, rfl⟩ | ⟨-, hfound⟩
        · have hretired : c.retired = true := hstep.retired ▸ hgone
          have hloop := (Client.replaced_step hretired (h.replaced index c hc hretired) hreaches).2.1
          unfold Client.loopClosed
          rw [hloop]
          exact h.replaced index c hc hretired
        · exact h.replaced i found hfound hgone
      · obtain ⟨hunasked, huntold, hunbuilt⟩ := hleft.fresh key hnone
        have hne : c.key ≠ key := hunbuilt c (List.mem_of_getElem? hc)
        refine ⟨hunasked, ?_, fun found hfound => ?_⟩
        · rw [recordsOfKey_append, recordsOfKey_client, huntold, if_neg hne, List.append_nil]
        · rcases List.mem_or_eq_of_mem_set hfound with hold | rfl
          · exact hunbuilt found hold
          · rw [hkey]
            exact hne

end Steps

/-- The cache holds in every run. -/
theorem cached (events : List Event) :
    Cached events (machine.told {} events) (machine.after {} events) := by
  induction events using List.reverseRecOn with
  | nil =>
    exact ⟨fun _ _ hget => absurd hget (Option.some_ne_none _).symm, fun _ _ hc => absurd hc (by simp),
      fun _ _ hc => absurd hc (by simp), fun _ _ => ⟨rfl, rfl, fun _ hc => absurd hc (by simp)⟩⟩
  | append_singleton events event ih =>
    rw [Machine.told_append, Machine.after_append]
    show Cached _ (_ ++ ((machine.step _ event).2 ++ [])) (machine.step _ event).1
    rw [List.append_nil]
    cases event with
    | lookUp settings credentials => exact ih.lookUp settings credentials
    | client index input =>
      exact ih.onClient (fun i c hc => (kept events i c hc).1) index input
    | closeLoop loop =>
      show Cached _ (_ ++ []) { machine.after {} events with closed := insert loop _ }
      rw [List.append_nil]
      exact ih.leave _ (fun _ _ => rfl) fun c hclosed => c.loopClosed_insert _ _ hclosed

/-! ## What holds of every run -/

/-- Of the clients of one key whose loops are open, one at most runs a session, and just one. -/
def OneSession (w : World) : Prop :=
  ∀ (i j : ℕ) (c c' : Client), w.clients[i]? = some c → w.clients[j]? = some c' → c.key = c'.key →
    c.loopClosed w.closed = false → c'.loopClosed w.closed = false →
      ∀ s t, c.runs s = true → c'.runs t = true → i = j ∧ s = t

/-- **One session per account.** However the clients of an account are looked up, shared, cancelled and
left behind on loops that close. -/
theorem one_session (events : List Event) : OneSession (machine.after {} events) := by
  have hcached := cached events
  intro i j c c' hc hc' hkey hopen hopen' s t hs ht
  have hlive {index : ℕ} {found : Client}
      (hfound : (machine.after {} events).clients[index]? = some found)
      (hloop : found.loopClosed (machine.after {} events).closed = false) :
      (machine.after {} events).accountClients.get? found.key = some index := by
    refine hcached.current index found hfound ?_
    by_contra hgone
    rw [hcached.replaced index found hfound (Bool.not_eq_false _ ▸ hgone)] at hloop
    cases hloop
  have hi := hlive hc hopen
  have hj := hlive hc' hopen'
  rw [hkey] at hi
  obtain rfl := Option.some.inj (hi.symm.trans hj)
  obtain rfl := Option.some.inj (hc.symm.trans hc')
  exact ⟨rfl, (accounted events i c hc).single s t hs ht⟩

/-- The client cached for a key has the credentials known of its account, and any session of its that
runs has them too. -/
def UpToDate (events : List Event) : Prop :=
  ∀ key (index : ℕ), (machine.after {} events).accountClients.get? key = some index →
    ∃ c : Client, (machine.after {} events).clients[index]? = some c ∧
      knownCredentials key events (machine.told {} events) = some c.credentials ∧
      ∀ s session, c.runs s = true → c.sessions[s]? = some session →
        session.credentials = c.credentials

/-- **The newest tokens.** No pair taken by a client of an account is lost to the next session, over
reconnects and over clients that replace one another. -/
theorem newest_tokens (events : List Event) : UpToDate events := by
  intro key index hget
  obtain ⟨c, hc, -, -, hknown⟩ := (cached events).cached key index hget
  refine ⟨c, hc, hknown, fun s session hs hsession => ?_⟩
  obtain ⟨up, offered, running, hstands⟩ := Client.Fits.stands (kept events index c hc).1
  exact hstands.renewed s ((hstands.runs s).mp hs) session hsession

/-- What brings the session of a client up on a loop. -/
def bringsUp (client loop session : ℕ) : List Event :=
  [.client client (.connect loop), .client client (.answered (.connected (.ok ()))),
    .client client (.answered (.listed (.ok [⟨7, some false, some 1⟩]))),
    .client client (.answered .closed), .client client (.becomesReady session),
    .client client .readied,
    .client client (.loaded (.ok (⟨500, none, none, some 2, 1⟩, [⟨1, "EUR"⟩], [])))]

/-- A node's loop closes without a disconnect, and the node is built again. -/
def rebuilt : List Event :=
  .lookUp ⟨1, .auto, "60", "demo", "live"⟩ ⟨"app", "secret", "old", none, none⟩ ::
    bringsUp 0 0 0 ++ [.client 0 (.refreshed 0 100 ⟨"new", "next", 60⟩), .closeLoop 0,
    .lookUp ⟨1, .auto, "60", "demo", "live"⟩ ⟨"app", "secret", "old", none, none⟩] ++
    bringsUp 1 1 0

example : ((machine.after {} rebuilt).clients.map fun c =>
    (c.users, c.retired, c.sessions.map fun s => s.credentials.accessToken)) =
    [(1, true, ["new"]), (1, false, ["new"])] := by decide

end AccountClient

end NautilusCtrader
