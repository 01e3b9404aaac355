import Cronymax.Atomic.Noninterference
import Cronymax.Extensions.Manifest
import Mathlib.Data.List.AList

/-! The scoped secret store.  The account name of a secret is the namespace of the extension, its
id, joined to the key by a dot, and both may contain dots. -/

namespace Cronymax.Extensions

open Atomic

/-- The keychain of the system: accounts of a service. -/
abbrev Keychain := AList fun _ : String × String => String

def keychainService : String := "ai.cronymax.extensions"

namespace Keychain

def get (k : Keychain) (service key : String) : Option String := k.lookup (service, key)

def set (k : Keychain) (service key value : String) : Keychain := k.insert (service, key) value

def delete (k : Keychain) (service key : String) : Keychain := k.erase (service, key)

end Keychain

/-- `ExtensionSecrets`, the view of one extension. -/
structure ExtensionSecrets where
  extId : String
  scope : String

def forExtension (extId : String) : ExtensionSecrets := ⟨extId, extId⟩

inductive SecretCall where
  | get (key : String)
  | set (key value : String)
  | delete (key : String)

def SecretCall.key : SecretCall → String
  | .get key => key
  | .set key _ => key
  | .delete key => key

namespace ExtensionSecrets

variable (v : ExtensionSecrets)

/-- `scoped_key`. -/
def scopedKey (key : String) : Except ExtensionError String :=
  if key = "" then .error (.manifestInvalid "secret key is empty")
  else if '\x00' ∈ key.toList then .error (.manifestInvalid "secret key contains NUL")
  else .ok (v.scope ++ "." ++ key)

/-- The answer of a call, and the keychain after it. -/
def call (k : Keychain) (c : SecretCall) : Except ExtensionError (Option String) × Keychain :=
  match v.scopedKey c.key with
  | .error e => (.error e, k)
  | .ok account =>
    match c with
    | .get _ => (.ok (k.get keychainService account), k)
    | .set _ value => (.ok none, k.set keychainService account value)
    | .delete _ => (.ok none, k.delete keychainService account)

end ExtensionSecrets

/-- A call of an extension. -/
abbrev SecretRequest := String × SecretCall

def SecretRequest.step (k : Keychain) (r : SecretRequest) :
    Except ExtensionError (Option String) × Keychain :=
  (forExtension r.1).call k r.2

def SecretRequest.isOf (id : String) (r : SecretRequest) : Bool := r.1 = id

/-- What an extension is answered in a run. -/
def reads (id : String) : Keychain → List SecretRequest → List (Except ExtensionError (Option String)) :=
  Isolation.answers SecretRequest.step (SecretRequest.isOf id)

/-- The other one is the id, a dot, and what can stand in a key. -/
def Extends (id other : String) : Prop := ∃ rest, '\x00' ∉ rest.toList ∧ other = id ++ "." ++ rest

/-- What the extension of `id` reads depends only on its own calls. -/
def Isolated (id other : String) : Prop :=
  ∀ (k : Keychain) (rs : List SecretRequest), (∀ r ∈ rs, r.1 = id ∨ r.1 = other) →
    reads id k rs = reads id k (rs.filter (SecretRequest.isOf id))

theorem scopedKey_ok {id key account : String} :
    (forExtension id).scopedKey key = .ok account ↔
      key ≠ "" ∧ '\x00' ∉ key.toList ∧ account = id ++ "." ++ key := by
  unfold ExtensionSecrets.scopedKey forExtension
  split
  · simp_all
  · split
    · simp_all
    · simp_all [eq_comm]

/-- The account that a request is about. -/
def SecretRequest.account (r : SecretRequest) : Option String :=
  ((forExtension r.1).scopedKey r.2.key).toOption

theorem SecretRequest.account_eq {r : SecretRequest} {account : String} :
    r.account = some account ↔
      r.2.key ≠ "" ∧ '\x00' ∉ r.2.key.toList ∧ account = r.1 ++ "." ++ r.2.key := by
  rw [← scopedKey_ok]
  unfold SecretRequest.account
  cases (forExtension r.1).scopedKey r.2.key <;> simp [Except.toOption]

theorem extends_of_account {a b key key' : String} (hNe : a ≠ b) (hNul : '\x00' ∉ key.toList)
    (hLe : a.toList.length ≤ b.toList.length) (h : a ++ "." ++ key = b ++ "." ++ key') : Extends a b := by
  have hLists : a.toList ++ '.' :: key.toList = b.toList ++ '.' :: key'.toList := by
    simpa using congrArg String.toList h
  obtain ⟨rest, hRest⟩ : a.toList <+: b.toList :=
    List.prefix_of_prefix_length_le ⟨_, hLists⟩ ⟨_, rfl⟩ hLe
  rw [← hRest, List.append_assoc, List.append_cancel_left_eq] at hLists
  cases rest with
  | nil =>
    rw [List.append_nil] at hRest
    exact absurd (String.toList_inj.mp hRest) hNe
  | cons c rest =>
    obtain ⟨rfl, hKey⟩ := List.cons.inj hLists
    refine ⟨String.ofList rest, fun hMem => hNul ?_, ?_⟩
    · rw [hKey]
      exact List.mem_append_left _ (by simpa using hMem)
    · apply String.toList_inj.mp
      simp [← hRest]

theorem extends_of_shared {a b key key' : String} (hNe : a ≠ b) (hNul : '\x00' ∉ key.toList)
    (hNul' : '\x00' ∉ key'.toList) (h : a ++ "." ++ key = b ++ "." ++ key') : Extends a b ∨ Extends b a := by
  rcases Nat.le_total a.toList.length b.toList.length with hLe | hLe
  · exact .inl (extends_of_account hNe hNul hLe h)
  · exact .inr (extends_of_account hNe.symm hNul' hLe h.symm)

/-- The keychains agree on the accounts that the extension can name. -/
def Alike (id : String) (k k' : Keychain) : Prop :=
  ∀ key, '\x00' ∉ key.toList → k.get keychainService (id ++ "." ++ key) =
    k'.get keychainService (id ++ "." ++ key)

theorem Keychain.get_set (k : Keychain) (service key key' value : String) :
    (k.set service key value).get service key' = if key' = key then some value else k.get service key' := by
  unfold Keychain.get Keychain.set
  split
  · rename_i h
    rw [h, AList.lookup_insert]
  · rename_i h
    exact AList.lookup_insert_ne fun hEq => h (congrArg Prod.snd hEq)

theorem Keychain.get_delete (k : Keychain) (service key key' : String) :
    (k.delete service key).get service key' = if key' = key then none else k.get service key' := by
  unfold Keychain.get Keychain.delete
  split
  · rename_i h
    rw [h, AList.lookup_erase]
  · rename_i h
    exact AList.lookup_erase_ne fun hEq => h (congrArg Prod.snd hEq)

theorem step_get (k : Keychain) (r : SecretRequest) {account : String} (hNot : r.account ≠ some account) :
    (r.step k).2.get keychainService account = k.get keychainService account := by
  unfold SecretRequest.account at hNot
  unfold SecretRequest.step ExtensionSecrets.call
  cases hScoped : (forExtension r.1).scopedKey r.2.key with
  | error e => rfl
  | ok scopedTo =>
    have hNe : account ≠ scopedTo := by
      rintro rfl
      exact hNot (by rw [hScoped]; rfl)
    cases r.2 with
    | get key => rfl
    | set key value => simp [Keychain.get_set, hNe]
    | delete key => simp [Keychain.get_delete, hNe]

theorem Alike.other {id : String} {k k' : Keychain} {r : SecretRequest} (h : Alike id k k')
    (hApart : ∀ key, '\x00' ∉ key.toList → r.account ≠ some (id ++ "." ++ key)) :
    Alike id (r.step k).2 k' := by
  intro key hNul
  rw [step_get k r (hApart key hNul)]
  exact h key hNul

theorem Alike.mine {id : String} {k k' : Keychain} {r : SecretRequest} (h : Alike id k k')
    (hMine : r.1 = id) : (r.step k).1 = (r.step k').1 ∧ Alike id (r.step k).2 (r.step k').2 := by
  subst hMine
  unfold SecretRequest.step ExtensionSecrets.call
  cases hScoped : (forExtension r.1).scopedKey r.2.key with
  | error e => exact ⟨rfl, h⟩
  | ok account =>
    obtain ⟨-, hNul, rfl⟩ := scopedKey_ok.mp hScoped
    cases hCall : r.2 with
    | get key =>
      rw [hCall] at hNul
      exact ⟨congrArg Except.ok (h key hNul), h⟩
    | set key value =>
      refine ⟨rfl, fun key' hNul' => ?_⟩
      simp only [Keychain.get_set, h key' hNul']
    | delete key =>
      refine ⟨rfl, fun key' hNul' => ?_⟩
      simp only [Keychain.get_delete, h key' hNul']

theorem isolated_of_apart {id other : String} (hNe : id ≠ other) (h : ¬Extends id other)
    (h' : ¬Extends other id) : Isolated id other := by
  intro k rs hOf
  refine Isolation.answers_eq_own (R := Alike id) (fun s t r _ hMine hAlike => ?_)
    (fun s t r hr hMine hAlike => ?_) fun _ _ => rfl
  · exact hAlike.mine (of_decide_eq_true hMine)
  · have hOther : r.1 = other := by
      rcases hOf r hr with hId | hId
      · exact absurd (decide_eq_true hId) hMine
      · exact hId
    refine hAlike.other fun key hNul hAccount => ?_
    obtain ⟨-, hNul', hEq⟩ := SecretRequest.account_eq.mp hAccount
    rw [hOther] at hEq
    rcases extends_of_shared hNe hNul hNul' hEq with hExt | hExt
    · exact h hExt
    · exact h' hExt

theorem not_isolated_of_shared {id other : String} (key key' : String) (hNe : id ≠ other) (hKey : key ≠ "")
    (hNul : '\x00' ∉ key.toList) (hKey' : key' ≠ "") (hNul' : '\x00' ∉ key'.toList)
    (h : id ++ "." ++ key = other ++ "." ++ key') : ¬Isolated id other := by
  intro hIsolated
  have hOk : (forExtension id).scopedKey key = .ok (id ++ "." ++ key) :=
    scopedKey_ok.mpr ⟨hKey, hNul, rfl⟩
  have hOk' : (forExtension other).scopedKey key' = .ok (other ++ "." ++ key') :=
    scopedKey_ok.mpr ⟨hKey', hNul', rfl⟩
  have hRun := hIsolated ∅ [(other, .set key' "theirs"), (id, .get key)] (by simp)
  simp [reads, Isolation.answers, SecretRequest.isOf, hNe.symm, SecretRequest.step, ExtensionSecrets.call,
    SecretCall.key, hOk, hOk', ← h, Keychain.get_set] at hRun
  simp [Keychain.get] at hRun

/-- An extension is kept apart from another where neither id is the other one followed by a dot and
what can stand in a key. -/
theorem secrets_isolated_iff {id other : String} (hNe : id ≠ other) :
    Isolated id other ↔ ¬Extends id other ∧ ¬Extends other id := by
  refine ⟨fun hIsolated => ⟨?_, ?_⟩, fun h => isolated_of_apart hNe h.1 h.2⟩
  · rintro ⟨rest, hNul, rfl⟩
    refine not_isolated_of_shared (rest ++ ".k") "k" hNe ?_ ?_ (by decide) (by decide)
      ?_ hIsolated
    · intro hEmpty
      have := congrArg String.toList hEmpty
      simp at this
    · simpa using hNul
    · apply String.toList_inj.mp
      simp
  · rintro ⟨rest, hNul, rfl⟩
    refine not_isolated_of_shared "k" (rest ++ ".k") hNe (by decide) (by decide) ?_ ?_
      ?_ hIsolated
    · intro hEmpty
      have := congrArg String.toList hEmpty
      simp at this
    · simpa using hNul
    · apply String.toList_inj.mp
      simp

section Examples

/-- Neither of the two ids begins with the other. -/
theorem apart_isolated : "alice.x" ≠ "bob.y" ∧ Isolated "alice.x" "bob.y" := by
  refine ⟨by decide, (secrets_isolated_iff (by decide)).mpr ⟨?_, ?_⟩⟩
  · rintro ⟨rest, -, hEq⟩
    have := congrArg String.toList hEq
    simp at this
  · rintro ⟨rest, -, hEq⟩
    have := congrArg String.toList hEq
    simp at this

def manifestOf (id publisher : String) : Manifest := ⟨id, "Demo", "1", publisher, "^1.0", none, []⟩

/-- A name may have a dot: the token of `alice.x.mail` is the `mail.token` of `alice.x`. -/
theorem nested_id_leaks :
    (manifestOf "alice.x" "alice").validate = .ok () ∧
      (manifestOf "alice.x.mail" "alice").validate = .ok () ∧ ¬Isolated "alice.x" "alice.x.mail" := by
  refine ⟨by decide, by decide, fun hIsolated => ?_⟩
  have hRun := hIsolated ∅ [("alice.x", .set "mail.token" "mine"), ("alice.x.mail", .set "token" "theirs"),
    ("alice.x", .get "mail.token")] (by decide)
  exact absurd hRun (by decide)

end Examples

end Cronymax.Extensions
