import Mathlib.Data.Int.Notation
import Mathlib.Data.List.Basic

/-! The credentials table of the state store: its rows, the active ones of a selector and
the four updates of a row in place. -/

namespace Dwara.State

inductive CredentialKind where
  | apiKey
  | jwt
  | mtls
  | hmac
  | oidc
  deriving DecidableEq, Repr

/-- One credential row; the times are epoch seconds. -/
structure CredentialRow where
  id : ℤ
  consumerId : ℤ
  kind : CredentialKind
  hash : String
  salt : Option String
  selector : String
  createdAt : ℤ
  revokedAt : Option ℤ
  retireAt : Option ℤ
  sourceRef : Option String
  deriving DecidableEq, Repr

/-- A row as a lookup returns it, with the name of its consumer. -/
structure CredentialRecord where
  id : ℤ
  consumerId : ℤ
  consumerName : String
  kind : CredentialKind
  hash : String
  salt : Option String
  selector : String
  createdAt : ℤ
  revokedAt : Option ℤ
  retireAt : Option ℤ
  deriving DecidableEq, Repr

/-- The rows in the order of their ids, and the name of every consumer. -/
structure CredentialTable where
  rows : List CredentialRow
  byId : rows.Pairwise fun r q => r.id < q.id
  consumers : ℤ → Option String

namespace CredentialRow

/-- The row authenticates at `now`, scheduled retirements included. -/
def Active (r : CredentialRow) (selector : String) (now : ℤ) : Prop :=
  r.selector = selector ∧ r.revokedAt = none ∧ ∀ t, r.retireAt = some t → now < t

instance (r : CredentialRow) (selector : String) (now : ℤ) : Decidable (r.Active selector now) :=
  inferInstanceAs (Decidable (_ ∧ _ ∧ _))

def toRecord (r : CredentialRow) (consumerName : String) : CredentialRecord :=
  ⟨r.id,r.consumerId,consumerName,r.kind,r.hash,r.salt,r.selector,r.createdAt,none,r.retireAt⟩

end CredentialRow

/-- The authenticator's filter on a cached list. -/
def CredentialRecord.Retired (r : CredentialRecord) (now : ℤ) : Prop := ∃ t, r.retireAt = some t ∧ t ≤ now

instance (r : CredentialRecord) (now : ℤ) : Decidable (r.Retired now) :=
  match h : r.retireAt with
  | none => isFalse fun ⟨t,ht,_⟩ => by simp [h] at ht
  | some t => decidable_of_iff (t ≤ now) ⟨fun hle => ⟨t,h,hle⟩,fun ⟨u,hu,hle⟩ => by rw [h] at hu; rwa [Option.some.inj hu]⟩

namespace CredentialTable

def lookupRow (T : CredentialTable) (selector : String) (now : ℤ) (r : CredentialRow) : Option CredentialRecord :=
  if r.Active selector now then (T.consumers r.consumerId).map r.toRecord else none

/-- Active credentials of a selector, from disk. -/
def lookupCredentialsBySelector (T : CredentialTable) (selector : String) (now : ℤ) : List CredentialRecord :=
  T.rows.filterMap (T.lookupRow selector now)

def updateWhere (T : CredentialTable) (p : CredentialRow → Prop) [DecidablePred p] (f : CredentialRow → CredentialRow)
    (hf : ∀ r, (f r).id = r.id) : CredentialTable where
  rows := T.rows.map fun r => if p r then f r else r
  byId := by
    have hid : ∀ r : CredentialRow, (if p r then f r else r).id = r.id := by
      intro r
      split
      · exact hf r
      · rfl
    refine List.Pairwise.map _ (fun r q h => ?_) T.byId
    rw [hid,hid]
    exact h
  consumers := T.consumers

/-- The selector of a row that is not revoked. -/
def unrevokedSelector (T : CredentialTable) (id : ℤ) : Option String :=
  (T.rows.find? fun r => r.id = id ∧ r.revokedAt = none).map (·.selector)

def revoke (T : CredentialTable) (id now : ℤ) : CredentialTable :=
  T.updateWhere (·.id = id) (fun r => { r with revokedAt := some now }) fun _ => rfl

/-- A row seeded from a reference and not revoked. -/
def FromSource (consumerId : ℤ) (kind : CredentialKind) (sourceRef : String) (r : CredentialRow) : Prop :=
  r.consumerId = consumerId ∧ r.kind = kind ∧ r.sourceRef = some sourceRef ∧ r.revokedAt = none

instance (consumerId : ℤ) (kind : CredentialKind) (sourceRef : String) : DecidablePred (FromSource consumerId kind sourceRef) :=
  fun _ => inferInstanceAs (Decidable (_ ∧ _ ∧ _ ∧ _))

def sourceRows (T : CredentialTable) (consumerId : ℤ) (kind : CredentialKind) (sourceRef : String) : List CredentialRow :=
  T.rows.filter (FromSource consumerId kind sourceRef)

def revokeSource (T : CredentialTable) (consumerId : ℤ) (kind : CredentialKind) (sourceRef : String) (now : ℤ) : CredentialTable :=
  T.updateWhere (FromSource consumerId kind sourceRef) (fun r => { r with revokedAt := some now }) fun _ => rfl

/-- The selector of a row a retirement at `t` would bring forward. -/
def retirableSelector (T : CredentialTable) (id t : ℤ) : Option String :=
  (T.rows.find? fun r => r.id = id ∧ r.revokedAt = none ∧ ∀ u, r.retireAt = some u → t < u).map (·.selector)

def retire (T : CredentialTable) (id t : ℤ) : CredentialTable :=
  T.updateWhere (·.id = id) (fun r => { r with retireAt := some t }) fun _ => rfl

def rehash (T : CredentialTable) (id : ℤ) (selector hash : String) : CredentialTable :=
  T.updateWhere (fun r => r.id = id ∧ r.selector = selector) (fun r => { r with hash := hash }) fun _ => rfl

def Revoked (T : CredentialTable) (id : ℤ) : Prop := ∃ r ∈ T.rows, r.id = id ∧ r.revokedAt ≠ none

/-- A row of that id with that selector. -/
def Holds (T : CredentialTable) (id : ℤ) (selector : String) : Prop := ∃ r ∈ T.rows, r.id = id ∧ r.selector = selector

theorem eq_of_id {T : CredentialTable} {r q : CredentialRow} (hr : r ∈ T.rows) (hq : q ∈ T.rows) (h : r.id = q.id) : r = q := by
  have hinj : ∀ x ∈ T.rows, ∀ y ∈ T.rows, x.id = y.id → x = y := by
    apply List.Pairwise.forall_of_forall_of_flip
    · exact fun _ _ _ => rfl
    · exact T.byId.imp fun hlt he => absurd he (by omega)
    · exact T.byId.imp fun hlt he => absurd he (by omega)
  exact hinj r hr q hq h

/-- What an update of rows of `selectors` leaves alone when it revokes `ids`. -/
structure Writes (T T' : CredentialTable) (selectors : List String) (ids : List ℤ) : Prop where
  kept : ∀ selector, selector ∉ selectors → ∀ now,
    T'.lookupCredentialsBySelector selector now = T.lookupCredentialsBySelector selector now
  revoked : ∀ id, T'.Revoked id ↔ T.Revoked id ∨ id ∈ ids
  unrevoked : ∀ id ∈ ids, ¬ T.Revoked id
  placed : ∀ id selector, id ∈ ids → T.Holds id selector → selector ∈ selectors
  holds : ∀ id selector, T'.Holds id selector ↔ T.Holds id selector

theorem lookupRow_eq_none {T : CredentialTable} {selector : String} {now : ℤ} {r : CredentialRow} (h : r.selector ≠ selector) :
    T.lookupRow selector now r = none := by
  rw [lookupRow,if_neg fun hactive => h hactive.1]

section Update
variable {T : CredentialTable} {p : CredentialRow → Prop} [DecidablePred p] {f : CredentialRow → CredentialRow}
  {hf : ∀ r, (f r).id = r.id}

theorem exists_updateWhere {Q : CredentialRow → Prop} :
    (∃ r ∈ (T.updateWhere p f hf).rows, Q r) ↔ ∃ r ∈ T.rows, Q (if p r then f r else r) := by
  simp only [updateWhere,List.mem_map]
  constructor
  · rintro ⟨_,⟨r,hr,rfl⟩,hQ⟩
    exact ⟨r,hr,hQ⟩
  · rintro ⟨r,hr,hQ⟩
    exact ⟨_,⟨r,hr,rfl⟩,hQ⟩

/-- An update of rows of `selectors` that revokes exactly the rows of `ids`. -/
theorem writes_updateWhere {selectors : List String} {ids : List ℤ} (hselector : ∀ r, (f r).selector = r.selector)
    (hp : ∀ r ∈ T.rows, p r → r.selector ∈ selectors)
    (hrevoked : ∀ r ∈ T.rows, p r → ((f r).revokedAt ≠ none ↔ r.revokedAt ≠ none ∨ r.id ∈ ids))
    (hids : ∀ r ∈ T.rows, r.id ∈ ids → p r ∧ r.revokedAt = none) (hin : ∀ id ∈ ids, ∃ r ∈ T.rows, r.id = id) :
    Writes T (T.updateWhere p f hf) selectors ids where
  kept selector hmem now := by
    rw [lookupCredentialsBySelector,lookupCredentialsBySelector,updateWhere,List.filterMap_map]
    refine List.filterMap_congr fun r hr => ?_
    rw [Function.comp_apply]
    by_cases hpr : p r
    · have hne : r.selector ≠ selector := fun he => hmem (he ▸ hp r hr hpr)
      rw [if_pos hpr,lookupRow_eq_none (by rw [hselector]; exact hne),lookupRow_eq_none hne]
    · rw [if_neg hpr]
      rfl
  revoked id := by
    rw [Revoked,Revoked,exists_updateWhere]
    constructor
    · rintro ⟨r,hr,hid,hrev⟩
      by_cases hpr : p r
      · rw [if_pos hpr] at hid hrev
        rw [hf] at hid
        rcases (hrevoked r hr hpr).mp hrev with h | h
        · exact .inl ⟨r,hr,hid,h⟩
        · exact .inr (hid ▸ h)
      · rw [if_neg hpr] at hid hrev
        exact .inl ⟨r,hr,hid,hrev⟩
    · rintro (⟨r,hr,hid,hrev⟩ | hid)
      · refine ⟨r,hr,?_⟩
        by_cases hpr : p r
        · rw [if_pos hpr,hf]
          exact ⟨hid,(hrevoked r hr hpr).mpr (.inl hrev)⟩
        · rw [if_neg hpr]
          exact ⟨hid,hrev⟩
      · obtain ⟨r,hr,rfl⟩ := hin id hid
        have hpr := (hids r hr hid).1
        refine ⟨r,hr,?_⟩
        rw [if_pos hpr,hf]
        exact ⟨rfl,(hrevoked r hr hpr).mpr (.inr hid)⟩
  unrevoked id hid := by
    rintro ⟨r,hr,rfl,hrev⟩
    exact hrev (hids r hr hid).2
  placed id selector hid := by
    rintro ⟨r,hr,rfl,rfl⟩
    exact hp r hr (hids r hr hid).1
  holds id selector := by
    rw [Holds,Holds,exists_updateWhere]
    refine exists_congr fun r => and_congr_right fun _ => ?_
    by_cases hpr : p r
    · rw [if_pos hpr,hf,hselector]
    · rw [if_neg hpr]

end Update

theorem of_unrevokedSelector {T : CredentialTable} {id : ℤ} {selector : String} (h : T.unrevokedSelector id = some selector) :
    ∃ r ∈ T.rows, r.id = id ∧ r.revokedAt = none ∧ r.selector = selector := by
  obtain ⟨r,hr,rfl⟩ := Option.map_eq_some_iff.mp h
  have hfound : r.id = id ∧ r.revokedAt = none := by
    simpa using List.find?_some hr
  exact ⟨r,List.mem_of_find?_eq_some hr,hfound.1,hfound.2,rfl⟩

theorem writes_revoke {T : CredentialTable} {id : ℤ} {selector : String} (now : ℤ) (h : T.unrevokedSelector id = some selector) :
    Writes T (T.revoke id now) [selector] [id] := by
  obtain ⟨q,hq,hqid,hqrev,rfl⟩ := of_unrevokedSelector h
  have heq : ∀ r ∈ T.rows, r.id = id → r = q := fun r hr hrid => eq_of_id hr hq (hrid.trans hqid.symm)
  refine writes_updateWhere (fun _ => rfl) (fun r hr hrid => ?_) (fun r hr hrid => ?_) (fun r hr hrid => ?_) fun i hi => ?_
  · rw [heq r hr hrid]
    exact List.mem_singleton_self _
  · exact ⟨fun _ => .inr (List.mem_singleton.mpr hrid),fun _ h => by cases h⟩
  · rw [List.mem_singleton] at hrid
    exact ⟨hrid,by rw [heq r hr hrid]; exact hqrev⟩
  · rw [List.mem_singleton] at hi
    exact ⟨q,hq,by rw [hqid,hi]⟩

theorem writes_revokeSource (T : CredentialTable) (consumerId : ℤ) (kind : CredentialKind) (sourceRef : String) (now : ℤ) :
    Writes T (T.revokeSource consumerId kind sourceRef now) ((T.sourceRows consumerId kind sourceRef).map (·.selector))
      ((T.sourceRows consumerId kind sourceRef).map (·.id)) := by
  have hmem : ∀ r, r ∈ T.sourceRows consumerId kind sourceRef ↔ r ∈ T.rows ∧ FromSource consumerId kind sourceRef r := by
    intro r
    rw [sourceRows,List.mem_filter,decide_eq_true_iff]
  refine writes_updateWhere (fun _ => rfl) (fun r hr hsource => ?_) (fun r hr hsource => ?_) (fun r hr hid => ?_) fun i hi => ?_
  · exact List.mem_map_of_mem ((hmem r).mpr ⟨hr,hsource⟩)
  · exact ⟨fun _ => .inr (List.mem_map_of_mem ((hmem r).mpr ⟨hr,hsource⟩)),fun _ h => by cases h⟩
  · obtain ⟨q,hq,hqid⟩ := List.mem_map.mp hid
    obtain ⟨hqrows,hqsource⟩ := (hmem q).mp hq
    obtain rfl := eq_of_id hqrows hr hqid
    exact ⟨hqsource,hqsource.2.2.2⟩
  · obtain ⟨q,hq,rfl⟩ := List.mem_map.mp hi
    exact ⟨q,((hmem q).mp hq).1,rfl⟩

/-- An update that leaves revocations alone. -/
private theorem writes_nothing_revoked {T : CredentialTable} {p : CredentialRow → Prop} [DecidablePred p]
    {f : CredentialRow → CredentialRow} {hf : ∀ r, (f r).id = r.id} {selectors : List String} (hselector : ∀ r, (f r).selector = r.selector)
    (hrevoked : ∀ r, (f r).revokedAt = r.revokedAt) (hp : ∀ r ∈ T.rows, p r → r.selector ∈ selectors) :
    Writes T (T.updateWhere p f hf) selectors [] := by
  refine writes_updateWhere hselector hp (fun r _ _ => ?_) (fun r _ hid => ?_) fun i hi => ?_
  · rw [hrevoked]
    exact ⟨.inl,fun h => h.resolve_right List.not_mem_nil⟩
  · exact absurd hid List.not_mem_nil
  · exact absurd hi List.not_mem_nil

theorem writes_retire {T : CredentialTable} {id t : ℤ} {selector : String} (h : T.retirableSelector id t = some selector) :
    Writes T (T.retire id t) [selector] [] := by
  obtain ⟨q,hq,rfl⟩ := Option.map_eq_some_iff.mp h
  have hqid : q.id = id := by
    have hfound := List.find?_some hq
    rw [decide_eq_true_iff] at hfound
    exact hfound.1
  refine writes_nothing_revoked (fun _ => rfl) (fun _ => rfl) fun r hr hrid => ?_
  rw [eq_of_id hr (List.mem_of_find?_eq_some hq) (hrid.trans hqid.symm)]
  exact List.mem_singleton_self _

theorem writes_rehash (T : CredentialTable) (id : ℤ) (selector hash : String) : Writes T (T.rehash id selector hash) [selector] [] :=
  writes_nothing_revoked (fun _ => rfl) (fun _ => rfl) fun _ _ h => List.mem_singleton.mpr h.2

/-- No revoked row is read. -/
theorem not_revoked_of_mem_lookup {T : CredentialTable} {selector : String} {now : ℤ} {c : CredentialRecord}
    (h : c ∈ T.lookupCredentialsBySelector selector now) : T.Holds c.id selector ∧ ¬ T.Revoked c.id := by
  obtain ⟨r,hr,hrow⟩ := List.mem_filterMap.mp h
  obtain ⟨hactive,hsome⟩ := Option.ite_none_right_eq_some.mp hrow
  obtain ⟨name,-,rfl⟩ := Option.map_eq_some_iff.mp hsome
  refine ⟨⟨r,hr,rfl,hactive.1⟩,?_⟩
  rintro ⟨q,hq,hqid,hrev⟩
  rw [eq_of_id hq hr hqid] at hrev
  exact hrev hactive.2.1

private theorem active_later {r : CredentialRow} {selector name : String} {t now : ℤ} (h : t ≤ now) :
    r.Active selector now ↔ r.Active selector t ∧ ¬ (r.toRecord name).Retired now := by
  constructor
  · rintro ⟨hselector,hrevoked,hretire⟩
    refine ⟨⟨hselector,hrevoked,fun u hu => Int.lt_of_le_of_lt h (hretire u hu)⟩,?_⟩
    rintro ⟨u,hu,hle⟩
    have hlt := hretire u hu
    omega
  · rintro ⟨⟨hselector,hrevoked,-⟩,hretired⟩
    refine ⟨hselector,hrevoked,fun u hu => ?_⟩
    by_contra hnot
    exact hretired ⟨u,hu,by omega⟩

/-- An earlier read and the authenticator's filter give what a read gives now. -/
theorem lookup_filter_retired {T : CredentialTable} {selector : String} {t now : ℤ} (h : t ≤ now) :
    (T.lookupCredentialsBySelector selector t).filter (fun c => ¬ c.Retired now) = T.lookupCredentialsBySelector selector now := by
  rw [lookupCredentialsBySelector,lookupCredentialsBySelector,List.filter_filterMap]
  refine List.filterMap_congr fun r _ => ?_
  rw [lookupRow,lookupRow]
  cases T.consumers r.consumerId with
  | none =>
    rw [Option.map_none,ite_self,ite_self]
    rfl
  | some name =>
    rw [Option.map_some]
    by_cases ht : r.Active selector t
    · rw [if_pos ht,Option.filter_some]
      exact if_congr (by rw [decide_eq_true_iff,active_later h,and_iff_right ht]) rfl rfl
    · have hnow : ¬ r.Active selector now := fun hnow =>
        ht (show _ ∧ ¬ (r.toRecord name).Retired now from (active_later h).mp hnow).1
      rw [if_neg ht,if_neg hnow]
      rfl

end CredentialTable
end Dwara.State
