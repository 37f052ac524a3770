import Marketplace.Lib.Settle
import Marketplace.Keys.Service

/-!
# One active key

The registration of a key rotates the active rows that its locking read has found, and the
partial unique index refuses a second active row. Each user has at most one active key, and no
key is lost or comes back, in every interleaving. A registration that commits while another one
of the same user is under way has its key overlooked by the locking read of the other one, which
the index then refuses; as long as that does not happen, every registration returns.
-/

namespace Marketplace

open Lib Txn KeyService

/-! ### What the registry is for -/

/-- No user has more than one active key. -/
def Db.OneActiveKey (db : Db) : Prop := ∀ u, (db.activeKeys u).length ≤ 1

/-- Every key is still there, with its owner, its bytes and its version, and none has become
active again. -/
def KeysKept (s t : Db) : Prop :=
  ∀ id k, s.userPublicKeys.get id = some k → ∃ k', t.userPublicKeys.get id = some k' ∧
    k'.userId = k.userId ∧ k'.publicKey = k.publicKey ∧ k'.keyVersion = k.keyVersion ∧
    (k.status ≠ .active → k'.status ≠ .active)

/-- The active keys of a user after an operation. -/
def KeyReply.activeAfter (r : KeyReply) (u : Id) (ks : List UserPublicKey) : List UserPublicKey :=
  match r with
  | .registered k => if k.userId = u then [k] else ks
  | .revoked k => ks.filter fun k' => k'.id ≠ k.id
  | .active _ => ks
  | .listed _ => ks

def KeyOp.isRegisterKey : KeyOp → Bool
  | .registerKey .. => true
  | _ => false

/-- The version of a key that is registered fits its column. -/
def KeyOp.VersionFits : KeyOp → Prop
  | .registerKey _ keyVersion => FitsInteger keyVersion
  | _ => True

/-- A registration of a key for the user. -/
def KeyRequest.Registers (q : KeyRequest) (u : Id) : Prop :=
  q.op.isRegisterKey = true ∧ q.caller.id = u

section

variable {ι : Type} (calls : ι → KeyRequest)

/-- `uuid4` draws the id of no stored key and of no other new one. -/
structure FreshKeyIds (db : Db) : Prop where
  unused : ∀ i, (calls i).op.isRegisterKey = true →
    db.userPublicKeys.get ((calls i).env.uuid4 0) = none
  distinct : ∀ i j, (calls i).op.isRegisterKey = true → (calls j).op.isRegisterKey = true →
    (calls i).env.uuid4 0 = (calls j).env.uuid4 0 → i = j

/-- No registration commits while another one of the same user is under way. -/
def RegistrationsApart (s : Sys ι Db Key Err KeyReply) (i : ι) (_ : Sys ι Db Key Err KeyReply) :
    Prop :=
  s.AboutToCommit i → ∀ u, (calls i).Registers u → ∀ j, j ≠ i → (calls j).Registers u →
    ¬Sys.UnderWay (fun i => (calls i).exec) s j

/-- The registry between two states of a run. -/
structure KeyRegistry (s t : Sys ι Db Key Err KeyReply) : Prop where
  oneActive : t.db.OneActiveKey
  kept : KeysKept s.db t.db
  /-- No registration fails. -/
  registers : ∀ i, (calls i).op.isRegisterKey = true → ∀ e, t.txn i ≠ .aborted (some e)
  /-- The key that was registered last is the active one, unless it has been revoked. -/
  last : ∀ before i k after, t.log = before ++ (i, .registered k) :: after →
    (∀ e ∈ after, ∀ k', e.2 = .registered k' → k'.userId ≠ k.userId) →
    (∀ e ∈ after, ∀ k', e.2 = .revoked k' → k'.id ≠ k.id) → t.db.activeKeys k.userId = [k]

end

/-! ### The tables -/

section Tables

variable {s t v : Db} {id u : Id} {k : UserPublicKey} {f : UserPublicKey → UserPublicKey}

/-- The active keys of a user are the rows of that user with the status active. -/
theorem mem_activeKeys : k ∈ s.activeKeys u ↔
    s.userPublicKeys.get k.id = some k ∧ k.userId = u ∧ k.status = .active := by
  rw [Db.activeKeys, List.mem_filter, Table.mem_rows_iff]
  exact and_congr_right fun _ => decide_eq_true_iff

/-- A state keeps its own keys. -/
theorem KeysKept.refl (s : Db) : KeysKept s s := fun _ k hk => ⟨k, hk, rfl, rfl, rfl, fun h => h⟩

/-- Keys kept twice are kept. -/
theorem KeysKept.trans (hst : KeysKept s t) (htv : KeysKept t v) : KeysKept s v := by
  intro id k hk
  obtain ⟨k', hk', huser, hkey, hversion, hstatus⟩ := hst id k hk
  obtain ⟨k'', hk'', huser', hkey', hversion', hstatus'⟩ := htv id k' hk'
  exact ⟨k'', hk'', huser'.trans huser, hkey'.trans hkey, hversion'.trans hversion,
    fun h => hstatus' (hstatus h)⟩

/-- A change of a row that takes it out of the partial unique index. -/
structure Retires (f : UserPublicKey → UserPublicKey) : Prop where
  id : ∀ k, (f k).id = k.id
  userId : ∀ k, (f k).userId = k.userId
  publicKey : ∀ k, (f k).publicKey = k.publicKey
  keyVersion : ∀ k, (f k).keyVersion = k.keyVersion
  inactive : ∀ k, (f k).status ≠ .active

/-- A rotated key is no longer active. -/
theorem retires_rotate (now : Time) : Retires (UserPublicKey.rotate now) :=
  ⟨fun _ => rfl, fun _ => rfl, fun _ => rfl, fun _ => rfl, fun _ => KeyStatus.noConfusion⟩

/-- A revoked key is no longer active. -/
theorem retires_revoke (now : Time) : Retires (UserPublicKey.revoke now) :=
  ⟨fun _ => rfl, fun _ => rfl, fun _ => rfl, fun _ => rfl, fun _ => KeyStatus.noConfusion⟩

/-- Retiring a key keeps every key and makes none active. -/
theorem Retires.kept (hf : Retires f) (s : Db) (id : Id) : KeysKept s (s.modifyPublicKey id f) := by
  intro id' k hk
  have hget : (s.modifyPublicKey id f).userPublicKeys.get id' =
      if id' = id then some (f k) else some k := by
    rw [Db.modifyPublicKey, Table.get_modify _ _ hf.id, hk, Option.map_some]
  split at hget
  · exact ⟨f k, hget, hf.userId k, hf.publicKey k, hf.keyVersion k, fun _ => hf.inactive k⟩
  · exact ⟨k, hget, rfl, rfl, rfl, fun h => h⟩

/-- The active keys that are left when one is taken out of the index. -/
theorem Retires.activeKeys (hf : Retires f) (s : Db) (id u : Id) :
    (s.modifyPublicKey id f).activeKeys u = (s.activeKeys u).filter fun k => k.id ≠ id := by
  unfold Db.activeKeys Db.modifyPublicKey
  rw [Table.rows_modify _ _ hf.id]
  induction s.userPublicKeys.rows with
  | nil => rfl
  | cons k ks ih =>
    rw [List.map_cons, List.filter_cons, List.filter_cons, ih]
    by_cases hid : k.id = id
    · have hinactive : ¬(f k).ActiveOf u := fun h => hf.inactive k h.2
      by_cases hk : k.ActiveOf u
      · simp [hid, hinactive, hk]
      · simp [hid, hinactive, hk]
    · by_cases hk : k.ActiveOf u
      · simp [hid, hk]
      · simp [hid, hk]

/-- A key under a new id overwrites none. -/
theorem keysKept_add (s : Db) (hnew : s.userPublicKeys.get k.id = none) :
    KeysKept s (s.addPublicKey k) := by
  intro id' k' hk'
  have hne : id' ≠ k.id := by
    rintro rfl
    rw [hnew] at hk'
    cases hk'
  exact ⟨k', (Table.get_insert_of_ne _ hne).trans hk', rfl, rfl, rfl, fun h => h⟩

/-- The active keys with a new one. -/
theorem activeKeys_add (s : Db) (hnew : s.userPublicKeys.get k.id = none)
    (hactive : k.status = .active) (u : Id) :
    (s.addPublicKey k).activeKeys u =
      if k.userId = u then s.activeKeys u ++ [k] else s.activeKeys u := by
  unfold Db.activeKeys Db.addPublicKey
  rw [Table.rows_insert hnew, List.filter_append]
  by_cases hu : k.userId = u
  · simp [UserPublicKey.ActiveOf, hu, hactive]
  · simp [UserPublicKey.ActiveOf, hu]

end Tables

/-! ### The rotation of active keys -/

section Rotation

variable {s t : Db} {now : Time} {ks : List UserPublicKey}

/-- The database after the rotation of the listed keys. -/
def Db.rotateAll (db : Db) (now : Time) (ks : List UserPublicKey) : Db :=
  ks.foldl (fun db k => db.modifyPublicKey k.id (UserPublicKey.rotate now)) db

/-- The keys are rotated one after another. -/
theorem rotateAll_cons (db : Db) (k : UserPublicKey) :
    db.rotateAll now (k :: ks) =
      (db.modifyPublicKey k.id (UserPublicKey.rotate now)).rotateAll now ks := rfl

/-- Rotating keys keeps every key and makes none active. -/
theorem keysKept_rotateAll (db : Db) : KeysKept db (db.rotateAll now ks) := by
  induction ks generalizing db with
  | nil => exact KeysKept.refl db
  | cons k ks ih =>
    rw [rotateAll_cons]
    exact ((retires_rotate now).kept db k.id).trans (ih _)

/-- Rotating keys creates and deletes no row. -/
theorem get_rotateAll_eq_none {db : Db} {id : Id} :
    (db.rotateAll now ks).userPublicKeys.get id = none ↔ db.userPublicKeys.get id = none := by
  induction ks generalizing db with
  | nil => exact Iff.rfl
  | cons k ks ih =>
    rw [rotateAll_cons, ih]
    exact Table.get_update_eq_none

/-- A key that is not listed stays as it is. -/
theorem get_rotateAll_of_ne {db : Db} {id : Id} (hid : ∀ k ∈ ks, k.id ≠ id) :
    (db.rotateAll now ks).userPublicKeys.get id = db.userPublicKeys.get id := by
  induction ks generalizing db with
  | nil => rfl
  | cons k ks ih =>
    rw [rotateAll_cons, ih fun k' hk' => hid k' (List.mem_cons_of_mem _ hk')]
    exact Table.get_modify_of_ne _ (Ne.symm (hid k List.mem_cons_self)) _

/-- The active keys that are left are those that are not listed. -/
theorem activeKeys_rotateAll (db : Db) (u : Id) :
    (db.rotateAll now ks).activeKeys u =
      (db.activeKeys u).filter fun (k : UserPublicKey) => ∀ k' ∈ ks, k.id ≠ k'.id := by
  induction ks generalizing db with
  | nil => simp [Db.rotateAll]
  | cons k ks ih =>
    rw [rotateAll_cons, ih, (retires_rotate now).activeKeys, List.filter_filter]
    refine List.filter_congr fun k' _ => ?_
    simp [Bool.and_comm]

end Rotation

/-! ### The programs among others -/

/-- A key row is protected by its lock, the set of active keys of a user by the entry of the
partial unique index. -/
def keyLocking : Locking Db Key where
  agree
    | .userPublicKey id, s, t => t.userPublicKeys.get id = s.userPublicKeys.get id
    | .activePublicKey u, s, t => t.activeKeys u = s.activeKeys u
    | _, _, _ => True
  refl key s := by cases key <;> trivial
  trans {key s t v} hst htv := by
    cases key with
    | userPublicKey id => exact Eq.trans htv hst
    | activePublicKey u => exact Eq.trans htv hst
    | _ => trivial

/-- What a commit does to the keys. -/
structure KeyEffect (q : KeyRequest) (r : KeyReply) (s t : Db) : Prop where
  kept : KeysKept s t
  active : ∀ u, t.activeKeys u = r.activeAfter u (s.activeKeys u)
  /-- A new key is that of a registration. -/
  created : ∀ id, t.userPublicKeys.get id ≠ none → s.userPublicKeys.get id ≠ none ∨
    q.op.isRegisterKey = true ∧ id = q.env.uuid4 0
  registered : ∀ k, r = .registered k → q.Registers k.userId

/-- The registry after a commit. -/
theorem KeyEffect.oneActive {q : KeyRequest} {r : KeyReply} {s t : Db} (h : KeyEffect q r s t)
    (hs : s.OneActiveKey) : t.OneActiveKey := by
  intro u
  rw [h.active u]
  cases r with
  | registered k =>
    simp only [KeyReply.activeAfter]
    split
    · exact le_refl 1
    · exact hs u
  | revoked k => exact (List.length_filter_le _ _).trans (hs u)
  | _ => exact hs u

section Programs

variable {R : Db → Db → Prop} {K : Db → Prop} {facts : List (Key × Db)} {w : Db → Db}
  {keep : Err → Bool} {u : Id} {ks : List UserPublicKey} {now : Time}

/-- What the locking read over the keys `ks` has found: the rows `found`, which are locked, are
those of `ks` that were still active keys of the user. -/
structure LockedActive (u : Id) (ks found : List UserPublicKey) (facts : List (Key × Db)) :
    Prop where
  active : ∀ k ∈ found, k.userId = u ∧ k.status = .active ∧
    ∃ s, (.userPublicKey k.id, s) ∈ facts ∧ s.userPublicKeys.get k.id = some k
  all : ∀ k ∈ ks, ∃ s, (.userPublicKey k.id, s) ∈ facts ∧
    ∀ k', s.userPublicKeys.get k.id = some k' → k'.userId = u → k'.status = .active → k' ∈ found

/-- The locking read over active keys. -/
theorem settle_lockActiveKeys
    {Post : (Db → Prop) → List (Key × Db) → (Db → Db) → Except Err (List UserPublicKey) → Prop}
    (h : ∀ K' facts' found, (∀ t, K' t → K t) → facts ⊆ facts' →
      LockedActive u ks found facts' → Post K' facts' id (.ok found)) :
    ((lockActiveKeys u ks).settle keep).wpr keyLocking Db.OneActiveKey R Post K facts id := by
  induction ks generalizing K facts Post with
  | nil =>
    exact h K facts [] (fun _ ht => ht) (List.Subset.refl facts)
      ⟨fun k hk => (List.not_mem_nil hk).elim, fun k hk => (List.not_mem_nil hk).elim⟩
  | cons k ks ih =>
    simp only [lockActiveKeys, bind_eq, wpr_settle_bind, wpr_settle_acquire, wpr_settleRest_ok,
      id_eq, pure_eq]
    intro s _ _ _
    refine ih fun K' facts' rest hK hsub hrest => ?_
    have hlocked : (.userPublicKey k.id, s) ∈ facts' := hsub List.mem_cons_self
    refine h K' facts' _ (fun t ht => (hK t ht).1)
      (fun f hf => hsub (List.mem_cons_of_mem _ hf)) ⟨fun k' hk' => ?_, fun k' hk' => ?_⟩
    · rcases List.mem_append.mp hk' with hk' | hk'
      · obtain ⟨hget, hactive⟩ := Option.filter_eq_some_iff.mp (Option.mem_toList.mp hk')
        have hid : k'.id = k.id := Table.key_of_get hget
        have hactive' : k'.ActiveOf u := of_decide_eq_true hactive
        exact ⟨hactive'.1, hactive'.2, s, by rw [hid]; exact hlocked, by rw [hid]; exact hget⟩
      · exact hrest.active k' hk'
    · rcases List.mem_cons.mp hk' with rfl | hk'
      · refine ⟨s, hlocked, fun k'' hget huser hstatus => List.mem_append_left _ ?_⟩
        rw [hget]
        have hactive : k''.ActiveOf u := ⟨huser, hstatus⟩
        simp [Option.filter, hactive]
      · obtain ⟨s', hmem, hall⟩ := hrest.all k' hk'
        exact ⟨s', hmem, fun k'' hget huser hstatus =>
          List.mem_append_right _ (hall k'' hget huser hstatus)⟩

/-- The rotation of the keys that were found. -/
theorem settle_rotateKeys
    {Post : (Db → Prop) → List (Key × Db) → (Db → Db) → Except Err Unit → Prop}
    (h : ∀ K' facts', (∀ t, K' t → K t) → facts ⊆ facts' →
      (∀ k ∈ ks, ∃ s, (.activePublicKey k.userId, s) ∈ facts') →
      Post K' facts' (fun s => (w s).rotateAll now ks) (.ok ())) :
    ((rotateKeys now ks).settle keep).wpr keyLocking Db.OneActiveKey R Post K facts w := by
  induction ks generalizing K facts w with
  | nil =>
    exact h K facts (fun _ ht => ht) (List.Subset.refl facts)
      fun k hk => (List.not_mem_nil hk).elim
  | cons k ks ih =>
    simp only [rotateKeys, retireKey, bind_eq, wpr_settle_bind, wpr_settle_acquire,
      wpr_settleRest_ok, wpr_settle_updateRow]
    intro s _ _ _ s' _ _ _
    refine ih fun K' facts' hK hsub hentries => ?_
    refine h K' facts' (fun t ht => (hK t ht).1.1)
      (fun f hf => hsub (List.mem_cons_of_mem _ (List.mem_cons_of_mem _ hf))) fun k' hk' => ?_
    rcases List.mem_cons.mp hk' with rfl | hk'
    · exact ⟨s, hsub (List.mem_cons_of_mem _ List.mem_cons_self)⟩
    · exact hentries k' hk'

/-- The effect of a registration and the rows it has locked. -/
structure RegisterEffect (k : UserPublicKey) (facts : List (Key × Db)) (s t : Db) : Prop where
  kept : KeysKept s t
  active : ∀ u, t.activeKeys u = if k.userId = u then [k] else s.activeKeys u
  created : ∀ id, t.userPublicKeys.get id ≠ none → s.userPublicKeys.get id ≠ none ∨ id = k.id
  frame : ∀ key, (∀ f ∈ facts, f.1 ≠ key) → keyLocking.agree key s t

/-- A new active key after the rotation of those that were found. -/
theorem registerEffect {s : Db} {k : UserPublicKey} {found : List UserPublicKey}
    (hfound : ∀ k' ∈ found, s.userPublicKeys.get k'.id = some k' ∧ k'.userId = k.userId)
    (hnew : (s.rotateAll now found).userPublicKeys.get k.id = none)
    (hnone : (s.rotateAll now found).activeKeys k.userId = []) (hactive : k.status = .active)
    (hlocked : ∀ k' ∈ found, ∃ t, (.userPublicKey k'.id, t) ∈ facts)
    (hid : ∃ t, (.userPublicKey k.id, t) ∈ facts)
    (hentry : ∃ t, (.activePublicKey k.userId, t) ∈ facts) :
    RegisterEffect k facts s ((s.rotateAll now found).addPublicKey k) := by
  have hactives : ∀ u, ((s.rotateAll now found).addPublicKey k).activeKeys u =
      if k.userId = u then [k] else s.activeKeys u := by
    intro u
    rw [activeKeys_add _ hnew hactive]
    split
    · next hu =>
      subst hu
      rw [hnone, List.nil_append]
    · next hu =>
      -- the keys that are rotated are active keys of another user
      rw [activeKeys_rotateAll, List.filter_eq_self]
      intro k' hk'
      rw [decide_eq_true_iff]
      intro k'' hk'' heq
      obtain ⟨hget, huser, -⟩ := mem_activeKeys.mp hk'
      obtain ⟨hget', huser'⟩ := hfound k'' hk''
      rw [heq, hget'] at hget
      obtain rfl := Option.some.inj hget
      exact hu (huser'.symm.trans huser)
  refine ⟨(keysKept_rotateAll s).trans (keysKept_add _ hnew), hactives, fun id hid => ?_,
    fun key hkey => ?_⟩
  · by_cases heq : id = k.id
    · exact .inr heq
    · refine .inl fun hnone' => hid ?_
      exact (Table.get_insert_of_ne _ heq).trans (get_rotateAll_eq_none.mpr hnone')
  · cases key with
    | userPublicKey id =>
      obtain ⟨t, ht⟩ := hid
      have hne : id ≠ k.id := by
        rintro rfl
        exact hkey _ ht rfl
      refine (Table.get_insert_of_ne _ hne).trans (get_rotateAll_of_ne fun k' hk' => ?_)
      rintro rfl
      obtain ⟨t', ht'⟩ := hlocked k' hk'
      exact hkey _ ht' rfl
    | activePublicKey u =>
      obtain ⟨t, ht⟩ := hentry
      have hne : k.userId ≠ u := by
        rintro rfl
        exact hkey _ ht rfl
      exact (hactives u).trans (if_neg hne)
    | _ => trivial

/-- Why a registration fails: the drawn id is taken, or a key of the user has become active since
the active rows were looked up. -/
def RegisterFailure (env : Env) (user : User) (s₀ s : Db) : Prop :=
  s.userPublicKeys.get (env.uuid4 0) ≠ none ∨
    ∃ k ∈ s.activeKeys user.id, k ∉ s₀.activeKeys user.id

/-- `register_key` among other transactions. -/
theorem registerKey_settles (env : Env) (user : User) (publicKeyRaw : Bytes) (keyVersion : ℤ)
    {S : Db → Prop} :
    ((registerKey env user publicKeyRaw keyVersion).settle keep).wprFrom keyLocking
      Db.OneActiveKey R S fun K facts w r => ∀ s, K s → keyLocking.Known facts s →
        (∀ k, r = .ok k → k = newKey env user publicKeyRaw keyVersion ∧
          RegisterEffect k facts s (w s)) ∧
        (∀ e, r = .error e → FitsInteger keyVersion →
          ∃ s₀, S s₀ ∧ R s₀ s ∧ RegisterFailure env user s₀ s) := by
  simp only [registerKey, bind_eq]
  refine wprFrom_settle_read fun s₀ _ hS => ?_
  simp only [wpr_settle_bind]
  refine settle_lockActiveKeys fun K₁ facts₁ found hK₁ _ hlocked => ?_
  simp only [wpr_settleRest_ok, wpr_settle_bind]
  refine settle_rotateKeys fun K₂ facts₂ hK₂ hsub hentries => ?_
  simp only [wpr_settleRest_ok, wpr_settleRest_error, insertPublicKey, encode, reserve, insertRow,
    bind_eq, wpr_settle_bind, wpr_settle_acquire, wpr_settle_raiseIf, wpr_settle_modify, pure_eq,
    wpr_settle_ret]
  have hrow : ∀ k ∈ found, ∃ s, (.userPublicKey k.id, s) ∈ facts₂ ∧
      s.userPublicKeys.get k.id = some k := by
    intro k hk
    obtain ⟨-, -, s, hmem, hget⟩ := hlocked.active k hk
    exact ⟨s, hsub hmem, hget⟩
  refine ⟨fun _ => ?_, fun hunfit _ s _ _ => ⟨fun k hk => (by cases hk), fun e _ hfits =>
    absurd ⟨List.forall_mem_singleton.mpr hfits, List.forall_mem_nil _⟩ hunfit⟩⟩
  intro s₃ _ _ _
  refine ⟨fun hnew s₄ _ _ _ => ⟨fun hnone s _ hknown => ?_, fun htaken _ s hK hknown => ?_⟩,
    fun htaken _ s hK hknown => ?_⟩
  · refine ⟨fun k hk => ?_, fun e he => (by cases he)⟩
    obtain rfl := Except.ok.inj hk
    have hget : s.userPublicKeys.get (env.uuid4 0) = s₃.userPublicKeys.get (env.uuid4 0) :=
      hknown (.userPublicKey (env.uuid4 0), s₃) (by simp [newKey])
    have hactive : s.activeKeys user.id = s₄.activeKeys user.id :=
      hknown (.activePublicKey user.id, s₄) (by simp [newKey])
    refine ⟨rfl, registerEffect (fun k hk => ?_) ?_ ?_ rfl (fun k hk => ?_) ?_ ?_⟩
    · obtain ⟨s', hmem, hget'⟩ := hrow k hk
      have hsame : s.userPublicKeys.get k.id = s'.userPublicKeys.get k.id :=
        hknown (.userPublicKey k.id, s') (by simp [hmem])
      exact ⟨hsame.trans hget', (hlocked.active k hk).1⟩
    · have hs₃ : s₃.userPublicKeys.get (env.uuid4 0) = none := by
        simpa [get_rotateAll_eq_none, newKey] using hnew
      exact get_rotateAll_eq_none.mpr (hget.trans hs₃)
    · have hs₄ : (s₄.rotateAll (env.now 0) found).activeKeys user.id = [] :=
        not_not.mp fun hne => hnone (decide_eq_true hne)
      change (s.rotateAll (env.now 0) found).activeKeys user.id = []
      rw [activeKeys_rotateAll, hactive, ← activeKeys_rotateAll, hs₄]
    · obtain ⟨s', hmem, -⟩ := hrow k hk
      exact ⟨s', by simp [hmem]⟩
    · exact ⟨s₃, by simp⟩
    · exact ⟨s₄, by simp⟩
  · refine ⟨fun k hk => (by cases hk), fun e _ _ => ⟨s₀, hS, hK₁ s (hK₂ s hK.1.1), .inr ?_⟩⟩
    have hactive : s.activeKeys user.id = s₄.activeKeys user.id :=
      hknown (.activePublicKey user.id, s₄) (by simp [newKey])
    have hleft : (s₄.rotateAll (env.now 0) found).activeKeys user.id ≠ [] :=
      of_decide_eq_true htaken
    rw [activeKeys_rotateAll, ← hactive] at hleft
    obtain ⟨k, hk⟩ := List.exists_mem_of_ne_nil _ hleft
    obtain ⟨hmem, hnot⟩ := List.mem_filter.mp hk
    refine ⟨k, hmem, fun hseen => ?_⟩
    -- an active row that was looked up has been found and rotated
    obtain ⟨hget, huser, hstatus⟩ := mem_activeKeys.mp hmem
    obtain ⟨s', hlock, hall⟩ := hlocked.all k hseen
    have hsame : s.userPublicKeys.get k.id = s'.userPublicKeys.get k.id :=
      hknown (.userPublicKey k.id, s') (by simp [hsub hlock])
    have hfound := hall k (hsame.symm.trans hget) huser hstatus
    exact of_decide_eq_true hnot k hfound rfl
  · refine ⟨fun k hk => (by cases hk), fun e _ _ => ⟨s₀, hS, hK₁ s (hK₂ s hK.1), .inl ?_⟩⟩
    have hget : s.userPublicKeys.get (env.uuid4 0) = s₃.userPublicKeys.get (env.uuid4 0) :=
      hknown (.userPublicKey (env.uuid4 0), s₃) (by simp [newKey])
    rw [hget]
    intro hs₃
    have hnone : (s₃.rotateAll (env.now 0) found).userPublicKeys.get (env.uuid4 0) = none :=
      get_rotateAll_eq_none.mpr hs₃
    simp [newKey, hnone] at htaken

/-- The other active keys are all active keys, unless the key is one. -/
theorem activeKeys_filter_ne {s : Db} {row : UserPublicKey}
    (hrow : s.userPublicKeys.get row.id = some row) (hinactive : ¬row.ActiveOf u) :
    (s.activeKeys u).filter (fun k => k.id ≠ row.id) = s.activeKeys u := by
  rw [List.filter_eq_self]
  intro k hk
  rw [decide_eq_true_iff]
  intro heq
  obtain ⟨hget, huser, hstatus⟩ := mem_activeKeys.mp hk
  rw [heq, hrow] at hget
  obtain rfl := Option.some.inj hget
  exact hinactive ⟨huser, hstatus⟩

/-- What `revoke_key` commits, for the row it has locked. -/
theorem setRevoked_safe {q : KeyRequest} {row : UserPublicKey} {s₁ : Db} (env : Env)
    (hrow : s₁.userPublicKeys.get row.id = some row) :
    (setRevoked env row).wp keyLocking Db.OneActiveKey
      (fun facts w k => CommitOk keyLocking Db.OneActiveKey (KeyEffect q) facts w (.revoked k))
      [(.userPublicKey row.id, s₁)] id := by
  -- a change that takes the row out of the index
  have hchange : ∀ {facts : List (Key × Db)} {k : UserPublicKey}, k.id = row.id →
      (.userPublicKey row.id, s₁) ∈ facts →
      (row.status = .active → ∃ t, (.activePublicKey row.userId, t) ∈ facts) →
      CommitOk keyLocking Db.OneActiveKey (KeyEffect q) facts
        (fun s => s.modifyPublicKey row.id (UserPublicKey.revoke (env.now 0))) (.revoked k) := by
    intro facts k hid hlock hentry s hI hknown
    have hget : s.userPublicKeys.get row.id = some row := (hknown _ hlock).trans hrow
    have hf := retires_revoke (env.now 0)
    have heffect : KeyEffect q (.revoked k) s
        (s.modifyPublicKey row.id (UserPublicKey.revoke (env.now 0))) := by
      refine ⟨hf.kept s row.id, fun u => ?_, fun id hne => .inl ?_, fun _ h => nomatch h⟩
      · rw [hf.activeKeys, ← hid]
        rfl
      · exact fun hnone => hne (Table.get_update_eq_none.mpr hnone)
    refine ⟨heffect.oneActive hI, heffect, fun key hkey => ?_⟩
    cases key with
    | userPublicKey id =>
      refine Table.get_modify_of_ne _ ?_ _
      rintro rfl
      exact hkey _ hlock rfl
    | activePublicKey u =>
      refine (hf.activeKeys s row.id u).trans (activeKeys_filter_ne hget ?_)
      rintro ⟨rfl, hstatus⟩
      obtain ⟨t, ht⟩ := hentry hstatus
      exact hkey _ ht rfl
    | _ => trivial
  unfold setRevoked
  split
  · next hstatus =>
    -- the row is revoked already
    intro s hI hknown
    have hget : s.userPublicKeys.get row.id = some row :=
      (hknown (.userPublicKey row.id, s₁) (by simp)).trans hrow
    refine ⟨hI, ⟨KeysKept.refl s, fun u => ?_, fun id hne => .inl hne, fun _ h => nomatch h⟩,
      fun key _ => keyLocking.refl key s⟩
    refine (activeKeys_filter_ne hget ?_).symm
    rintro ⟨-, hactive⟩
    rw [hstatus] at hactive
    cases hactive
  · simp only [retireKey, bind_eq, wp_bind, wp_acquire, wp_updateRow, pure_eq, wp_ret]
    intro s _ _ s' _ _
    exact hchange rfl (by simp) fun _ => ⟨s, by simp⟩
  · next hstatus =>
    simp only [bind_eq, wp_bind, wp_updateRow, pure_eq, wp_ret]
    intro s _ _
    exact hchange rfl (by simp) fun hactive => by
      rw [hstatus] at hactive
      cases hactive

/-- A request that is not a registration. -/
theorem keyExec_safe {q : KeyRequest} (hop : q.op.isRegisterKey = false) :
    q.exec.Safe keyLocking Db.OneActiveKey (KeyEffect q) := by
  -- a look-up changes nothing
  have hread : ∀ {s : Db} {facts : List (Key × Db)} {r : KeyReply},
      (∀ u ks, r.activeAfter u ks = ks) → (∀ k, r ≠ .registered k) → s.OneActiveKey →
      s.OneActiveKey ∧ KeyEffect q r s s ∧
        ∀ key, (∀ f ∈ facts, f.1 ≠ key) → keyLocking.agree key s s :=
    fun hr hr' hI => ⟨hI, ⟨KeysKept.refl _, fun u => (hr u _).symm, fun _ h => .inl h,
      fun k hk => absurd hk (hr' k)⟩, fun key _ => keyLocking.refl key _⟩
  obtain ⟨caller, op, env⟩ := q
  cases op with
  | registerKey publicKeyRaw keyVersion => cases hop
  | getActiveKeyForUser userId =>
    simp only [Safe, KeyRequest.exec, getActiveKeyForUser, bind_eq, wp_bind, wp_read,
      wp_scalarOneOrNone, wp_getOrRaise, pure_eq, wp_ret]
    intro _ _ _ _ _ _ _ s hI _
    exact hread (fun _ _ => rfl) (fun _ => KeyReply.noConfusion) hI
  | listKeysForUser =>
    simp only [Safe, KeyRequest.exec, listKeysForUser, bind_eq, wp_bind, wp_read, pure_eq, wp_ret]
    intro _ _ _ s hI _
    exact hread (fun _ _ => rfl) (fun _ => KeyReply.noConfusion) hI
  | revokeKey keyId =>
    simp only [Safe, KeyRequest.exec, revokeKey, bind_eq, wp_bind]
    refine wp_selectForUpdate (by simp) fun s₁ _ _ => ?_
    simp only [wp_getOrRaise, wp_raiseIf, id_eq, pure_eq, wp_ret]
    intro row hrow _
    obtain rfl := Table.key_of_get hrow
    exact setRevoked_safe env hrow

/-- A request among other transactions. -/
theorem exec_settles (q : KeyRequest) {S : Db → Prop}
    (hkeep : q.op.isRegisterKey = false → ∀ e, keep e = false) :
    (q.exec.settle keep).wprFrom keyLocking Db.OneActiveKey R S fun K facts w r =>
      ∀ s, s.OneActiveKey → K s → keyLocking.Known facts s →
        (∀ a, r = .ok a → (w s).OneActiveKey ∧ KeyEffect q a s (w s) ∧
          ∀ key, (∀ f ∈ facts, f.1 ≠ key) → keyLocking.agree key s (w s)) ∧
        (∀ e, r = .error e → q.op.isRegisterKey = true ∧ (q.op.VersionFits →
          ∃ s₀, S s₀ ∧ R s₀ s ∧ RegisterFailure q.env q.caller s₀ s)) := by
  cases hop : q.op.isRegisterKey with
  | false =>
    refine wprFrom_of_wpr (fun K K' facts w r hK hPost s hI hs => hPost s hI (hK s hs)) ?_
    refine wpr_mono (fun K facts w r hr s hI _ hknown => ⟨fun a ha => hr.1 a ha s hI hknown,
      fun e he => absurd (hr.2 e he) (by simp [hkeep hop e])⟩)
      (wpr_and (wpr_settle_of_wpr (wpr_of_wp (keyExec_safe hop))) wpr_settle_kept)
  | true =>
    obtain ⟨caller, op, env⟩ := q
    cases op with
    | registerKey publicKeyRaw keyVersion =>
      refine wprFrom_settle_bind
        (fun K K' facts w r hK hPost s hI hs => hPost s hI (hK s hs)) ?_
      refine wprFrom_mono (fun K facts w r hr => ?_)
        (registerKey_settles env caller publicKeyRaw keyVersion)
      cases r with
      | error e =>
        refine fun s _ hs hknown => ⟨fun a ha => (nomatch ha), fun e' he' => ⟨rfl, ?_⟩⟩
        exact (hr s hs hknown).2 e rfl
      | ok k =>
        refine fun s hI hs hknown => ⟨fun a ha => ?_, fun e he => nomatch he⟩
        obtain rfl := Except.ok.inj ha
        obtain ⟨rfl, hk⟩ := (hr s hs hknown).1 k rfl
        have heffect : KeyEffect ⟨caller, .registerKey publicKeyRaw keyVersion, env⟩
            (.registered (newKey env caller publicKeyRaw keyVersion)) s (w s) := by
          refine ⟨hk.kept, hk.active, fun id hid => (hk.created id hid).imp_right fun heq => ?_, ?_⟩
          · exact ⟨rfl, heq⟩
          · rintro k' hk'
            obtain rfl := KeyReply.registered.inj hk'
            exact ⟨rfl, rfl⟩
        exact ⟨heffect.oneActive hI, heffect, hk.frame⟩
    | _ => cases hop

end Programs

/-! ### In every interleaving -/

section Interleaving

variable {ι : Type} {calls : ι → KeyRequest} {db : Db}

/-- What a registration relies on: no key of the user becomes active, and the drawn id stays
unused. -/
structure KeysQuiet (q : KeyRequest) (s t : Db) : Prop where
  active : ∀ k, k ∈ t.activeKeys q.caller.id → k ∈ s.activeKeys q.caller.id
  unused : s.userPublicKeys.get (q.env.uuid4 0) = none →
    t.userPublicKeys.get (q.env.uuid4 0) = none

/-- A state is quiet against itself. -/
theorem KeysQuiet.refl {q : KeyRequest} (s : Db) : KeysQuiet q s s := ⟨fun _ h => h, fun h => h⟩

/-- Two quiet stretches make one. -/
theorem KeysQuiet.trans {q : KeyRequest} {s t v : Db} (hst : KeysQuiet q s t)
    (htv : KeysQuiet q t v) : KeysQuiet q s v :=
  ⟨fun k hk => hst.active k (htv.active k hk), fun h => htv.unused (hst.unused h)⟩

/-- The active keys of a user are what the log makes of them. -/
theorem activeKeys_of_commits {t : Db} {log : List (ι × KeyReply)}
    (h : Sys.Commits (fun i => KeyEffect (calls i)) db log t) (u : Id) :
    t.activeKeys u = log.foldl (fun ks e => e.2.activeAfter u ks) (db.activeKeys u) := by
  induction h with
  | nil => rfl
  | snoc i r _ hr ih => rw [hr.active, ih, List.foldl_append, List.foldl_cons, List.foldl_nil]

/-- A key that is registered is the active one until it is revoked or another one registered. -/
theorem activeAfter_last {k : UserPublicKey} {after : List (ι × KeyReply)}
    (hregistered : ∀ e ∈ after, ∀ k', e.2 = .registered k' → k'.userId ≠ k.userId)
    (hrevoked : ∀ e ∈ after, ∀ k', e.2 = .revoked k' → k'.id ≠ k.id) :
    after.foldl (fun ks e => e.2.activeAfter k.userId ks) [k] = [k] := by
  induction after with
  | nil => rfl
  | cons e after ih =>
    have hfirst : e.2.activeAfter k.userId [k] = [k] := by
      cases hr : e.2 with
      | registered k' => exact if_neg (hregistered e List.mem_cons_self k' hr)
      | revoked k' =>
        have hne : k.id ≠ k'.id := Ne.symm (hrevoked e List.mem_cons_self k' hr)
        simp [KeyReply.activeAfter, hne]
      | _ => rfl
    rw [List.foldl_cons, hfirst]
    exact ih (fun e' he' => hregistered e' (List.mem_cons_of_mem _ he'))
      fun e' he' => hrevoked e' (List.mem_cons_of_mem _ he')

/-- A commit disturbs no registration that is under way, if it is not one of the same user. -/
theorem KeyEffect.quiet {q q' : KeyRequest} {r : KeyReply} {s t : Db} (h : KeyEffect q r s t)
    (hother : ∀ u, q.Registers u → q'.caller.id ≠ u)
    (hfresh : q.op.isRegisterKey = true → q'.env.uuid4 0 ≠ q.env.uuid4 0) : KeysQuiet q' s t where
  active k hk := by
    rw [h.active] at hk
    cases r with
    | registered k' =>
      have hne : ¬k'.userId = q'.caller.id := Ne.symm (hother _ (h.registered k' rfl))
      rwa [KeyReply.activeAfter, if_neg hne] at hk
    | revoked k' => exact List.mem_of_mem_filter hk
    | _ => exact hk
  unused hs := by
    by_contra ht
    rcases h.created _ ht with hne | ⟨hregister, heq⟩
    · exact hne hs
    · exact hfresh hregister heq

/-- The active keys, in every interleaving. -/
theorem registry_safe [DecidableEq ι] (hdb : db.OneActiveKey)
    {s t : Sys ι Db Key Err KeyReply} (hs : Sys.Steps (Sys.init db fun i => (calls i).exec) s)
    (ht : Sys.Steps s t) : t.db.OneActiveKey ∧ KeysKept s.db t.db := by
  have hp : ∀ i, ((calls i).exec.settle fun _ => false).wprFrom keyLocking Db.OneActiveKey
      (fun _ _ => True) (fun _ => True)
      (RelyOk keyLocking Db.OneActiveKey (OnlyReturns (KeyEffect (calls i)))) := by
    intro i
    have hkept : ((calls i).exec.settle fun _ => false).wprFrom keyLocking Db.OneActiveKey
        (fun _ _ => True) (fun _ => True) (fun _ _ _ r => ∀ e, r = .error e → false = true) :=
      wprFrom_of_wpr (fun _ _ _ _ _ _ h => h) wpr_settle_kept
    refine wprFrom_mono (fun K facts w r hr s hI hs hknown => ?_)
      (wprFrom_and (exec_settles (calls i) fun _ _ => rfl) hkept)
    cases r with
    | ok a => exact (hr.1 s hI hs hknown).1 a rfl
    | error e => exact absurd (hr.2 e rfl) (by simp)
  have hs' := hs.stepsIf (C := fun _ _ _ => True) fun _ _ _ => trivial
  have ht' := ht.stepsIf (C := fun _ _ _ => True) fun _ _ _ => trivial
  have hundisturbed : ∀ i s t, Sys.Undisturbed (fun i => (calls i).exec) (fun _ _ => True)
      (fun _ _ _ => True) s i t := fun _ _ _ => ⟨fun _ => trivial, fun _ _ _ => trivial⟩
  obtain ⟨log, -, hcommits⟩ := hs'.commits_between (fun _ _ => trivial)
    (fun _ _ _ _ _ _ => trivial) hp (fun i s t _ _ _ _ _ _ => hundisturbed i s t) hdb ht'
  have hreturns := (hs'.trans ht').returns (fun _ _ => trivial)
    (fun _ _ _ _ _ _ => trivial) hp (fun i s t _ _ _ _ _ _ => hundisturbed i s t) hdb
  exact ⟨hreturns.holds.db, hcommits.related KeysKept.refl (fun _ _ _ => KeysKept.trans)
    fun _ _ _ _ h => h.kept⟩

end Interleaving

/-- **The key registry.** In every run of which no registration commits while another one of the
same user is under way, and whose new keys have versions that fit their column, every user has at
most one active key, no key is lost, changed or becomes active again, every registration returns,
and the key that was registered last is the active one until it is revoked. -/
theorem key_registry {ι : Type} [DecidableEq ι] (calls : ι → KeyRequest) {db : Db}
    (hdb : db.OneActiveKey) (hfresh : FreshKeyIds calls db)
    (hversions : ∀ i, (calls i).op.VersionFits) {s t : Sys ι Db Key Err KeyReply}
    (hs : Sys.StepsIf (RegistrationsApart calls) (Sys.init db fun i => (calls i).exec) s)
    (ht : Sys.StepsIf (RegistrationsApart calls) s t) : KeyRegistry calls s t := by
  let S : ι → Db → Prop := fun i db => (calls i).op.isRegisterKey = true →
    db.userPublicKeys.get ((calls i).env.uuid4 0) = none
  let R : ι → Db → Db → Prop := fun i s t => (calls i).op.isRegisterKey = true →
    KeysQuiet (calls i) s t
  have hp : ∀ i, ((calls i).exec.settle fun _ => (calls i).op.isRegisterKey).wprFrom keyLocking
      Db.OneActiveKey (R i) (S i)
      (RelyOk keyLocking Db.OneActiveKey (OnlyReturns (KeyEffect (calls i)))) := by
    intro i
    refine wprFrom_mono (fun K facts w r hr s hI hs hknown => ?_)
      (exec_settles (calls i) fun hop _ => hop)
    cases r with
    | ok a => exact (hr s hI hs hknown).1 a rfl
    | error e =>
      obtain ⟨hop, hfails⟩ := (hr s hI hs hknown).2 e rfl
      obtain ⟨s₀, hS, hR, hfailure⟩ := hfails (hversions i)
      rcases hfailure with htaken | ⟨k, hk, hnot⟩
      · exact absurd ((hR hop).unused (hS hop)) htaken
      · exact absurd ((hR hop).active k hk) hnot
  have hC : ∀ i s t, Sys.Step i s t → RegistrationsApart calls s i t → s.db.OneActiveKey →
      s.Logged → Sys.Commits (fun i => KeyEffect (calls i)) db s.log s.db →
      (∀ w r, s.txn i = .running w (.ret r) → KeyEffect (calls i) r s.db (w s.db)) →
      Sys.Undisturbed (fun i => (calls i).exec) S R s i t := by
    intro i s t hst hapart _ hlogged hcommits hcommit
    refine ⟨fun hi hop => ?_, fun j hj hway hop => ?_⟩
    · -- the drawn id could only be there because of this very registration
      by_contra htaken
      have horigin := hcommits.origin (T := fun db id => db.userPublicKeys.get id ≠ none)
        (N := fun i id => (calls i).op.isRegisterKey = true ∧ id = (calls i).env.uuid4 0)
        (fun i r s t id h => h.created id) htaken
      rcases horigin with hne | ⟨⟨j, r⟩, hmem, hop', heq⟩
      · exact hne (hfresh.unused i hop)
      · obtain rfl := hfresh.distinct i j hop hop' heq
        rw [hlogged i r hmem] at hi
        cases hi
    · cases hst with
      | @commit w r hi =>
        refine (hcommit w r hi).quiet (fun u hregisters heq => ?_) fun hop' heq => ?_
        · exact hapart ⟨w, r, hi⟩ u hregisters j hj ⟨hop, heq⟩ hway
        · exact hj (hfresh.distinct j i hop hop' heq)
      | _ => exact KeysQuiet.refl _
  have hreturns := (hs.trans ht).returns (fun _ s _ => KeysQuiet.refl s)
    (fun _ _ _ _ hst htu hop => (hst hop).trans (htu hop)) hp hC hdb
  refine ⟨hreturns.holds.db, (registry_safe hdb hs.steps ht.steps).2, fun i hop e hi => ?_, ?_⟩
  · have hnot := hreturns.raised i e hi
    rw [hop] at hnot
    cases hnot
  · intro before i k after hlog hregistered hrevoked
    rw [activeKeys_of_commits hreturns.commits, hlog, List.foldl_append, List.foldl_cons]
    have hfirst : ∀ ks, KeyReply.activeAfter (.registered k) k.userId ks = [k] :=
      fun _ => if_pos rfl
    rw [hfirst]
    exact activeAfter_last hregistered hrevoked

namespace Sample

def keyOwner : User := { id := 1, role := .customer }

def firstKey : UserPublicKey :=
  { id := 9, userId := 1, publicKey := [1], keyVersion := 1, registeredAt := 0, createdAt := 0 }

/-- A server on which the user has one active key. -/
def keyed : Db := { userPublicKeys := (∅ : Table UserPublicKey UserPublicKey.id).insert firstKey }

/-- Nobody has two active keys in the sample database. -/
theorem keyed_oneActiveKey : keyed.OneActiveKey :=
  fun _ => (List.length_filter_le _ _).trans (le_refl 1)

/-- Two registrations of the user. -/
def registrations (i : Fin 2) : KeyRequest where
  caller := keyOwner
  op := .registerKey [2 + i.val.toUInt8] 2
  env := { now := fun _ => 10, transactionNow := 10, uuid4 := fun _ => 20 + i, randbelow := 0 }

/-- Both sample registrations have versions that fit the column. -/
theorem registrations_fit (i : Fin 2) : (registrations i).op.VersionFits := by
  change FitsInteger 2
  decide

/-- The ids of the sample registrations are unused and different. -/
theorem registrations_fresh : FreshKeyIds registrations keyed where
  unused := by decide
  distinct := by decide

/-- The transactions of these requests. -/
def registering (i : Fin 2) : Tx KeyReply := (registrations i).exec

end Sample

/-- Two registrations, one after the other: both return. -/
theorem key_registry_in_turn :
    Sample.keyed.OneActiveKey ∧ FreshKeyIds Sample.registrations Sample.keyed ∧
    (∀ i, (Sample.registrations i).op.VersionFits) ∧
    ∃ t, Sys.StepsIf (RegistrationsApart Sample.registrations)
        (Sys.init Sample.keyed Sample.registering) t ∧ t.log.map Prod.fst = [0, 1] ∧
      KeyRegistry Sample.registrations (Sys.init Sample.keyed Sample.registering) t := by
  refine ⟨Sample.keyed_oneActiveKey, Sample.registrations_fresh, Sample.registrations_fit, ?_⟩
  obtain ⟨t, ht, -, hlog⟩ := Sys.stepsIf_init_of_serial
    (C := RegistrationsApart Sample.registrations) Sample.registering Sample.keyed [0, 1]
    (fun s i t _ hidle _ _ _ j hj _ hway => (hidle j hj).not_underWay hway)
    (by decide) (by decide +kernel)
  exact ⟨t, ht, hlog, key_registry Sample.registrations Sample.keyed_oneActiveKey
    Sample.registrations_fresh Sample.registrations_fit (.refl _) ht⟩

/-- Of two registrations at the same time, the one whose locking read has overlooked the key of
the other one fails. -/
theorem registration_overlooked :
    Sample.keyed.OneActiveKey ∧ FreshKeyIds Sample.registrations Sample.keyed ∧
    (∀ i, (Sample.registrations i).op.VersionFits) ∧
    ∃ t, Sys.Steps (Sys.init Sample.keyed Sample.registering) t ∧
      t.txn 0 = .aborted (some (.integrity "uq_user_public_keys_one_active")) ∧
      ¬KeyRegistry Sample.registrations (Sys.init Sample.keyed Sample.registering) t := by
  refine ⟨Sample.keyed_oneActiveKey, Sample.registrations_fresh, Sample.registrations_fit, ?_⟩
  have hreads : (Sample.registering 0).selects Sample.keyed 1 = true := by decide +kernel
  obtain ⟨r, hrun⟩ := run_of_session (p := Sample.registering 1) (s := Sample.keyed)
    (by decide +kernel)
  have hrest : (((Sample.registering 0).afterSelects Sample.keyed 1).run
      ((Sample.registering 1).session Sample.keyed).2) =
      .error (.integrity "uq_user_public_keys_one_active") :=
    run_of_session_error (by decide +kernel)
  obtain ⟨t, ht, htxn, -, -⟩ := Sys.refused_of_run (i := 0) (j := 1) (by decide) hreads hrun hrest
  exact ⟨t, ht, htxn, fun h => h.registers 0 rfl _ htxn⟩

end Marketplace
