import SkPqc.DmSession.Model
import SkPqc.Foundations.StateMachine
import SkPqc.Foundations.JsonMap
import SkPqc.Foundations.Decimal
import SkPqc.Foundations.Hex

/-!
# Snapshots

This module embeds the persistence of `dm_session.rs`.  A snapshot holds the
epoch secrets, the KAM and the position of the ratchet; the ratchet's secret and
bounds are not in it, and `restore` takes them from the secret store and from
the session.

Main results:

- Theorem `Restorable.step`: every call keeps the ratchet backed by the store.
- Theorem `restore_snapshot`: such a session is restored as it was.
- Theorem `snapshot_lossless`: so is every session that calls can reach, and
  the conversation goes on unchanged.
-/

namespace SkPqc
namespace DmSession

open Rust Kem Ratchet Json

variable {φ : Type} [JsonF64 φ]

/-! ## Capturing a session -/

/-- A stored secret: the epoch in decimal, the secret in hexadecimal. -/
def secretMember (H : Hex.Codec) (entry : UInt64 × ByteBlock epochSecretLen) : String × Value φ :=
  (toString entry.1, .string (H.encode entry.2.toList))

def ratchetValue : Option (DmRatchet φ) → Value φ
  | none => .null
  | some r => .object (toMap
      [("epoch", .number (.posInt r.epoch)),
        ("message_index", .number (.posInt r.messageIndex)),
        ("epoch_started_at", .ofF64 r.epochStartedAt)])

def kamValue (H : Hex.Codec) : Option Bytes → Value φ
  | none => .null
  | some kam => .string (H.encode kam)

/-- Capture the full ratchet state as a JSON value. -/
def snapshot (H : Hex.Codec) (s : DmSession φ) : Value φ :=
  let secrets := toMap (s.epochSecrets.toList.map (secretMember H))
  .object (toMap
    [("v", .number (.posInt 1)),
      ("peer", .string s.peer),
      ("rekey_msg_bound", .number (.posInt s.rekeyMsgBound)),
      ("rekey_age_seconds", .number (.posInt s.rekeyAgeSeconds)),
      ("epoch_secrets", .object secrets),
      ("current_kam", kamValue H s.currentKam),
      ("ratchet", ratchetValue s.ratchet)])

/-! ## Rebuilding a session -/

def bad (m : String) : DmSessionError := .badToken s!"bad snapshot: {m}"

/-- One member of `epoch_secrets`. -/
def restoreSecret (H : Hex.Codec) (secrets : EpochSecrets) (entry : String × Value φ) :
    Outcome DmSessionError EpochSecrets := do
  let epoch ← Outcome.okOr (bad "bad epoch key") (parseU64 entry.1)
  let hexval ← Outcome.okOr (bad "secret not str") entry.2.asStr
  let raw ← Outcome.okOr (bad "bad secret hex") (H.decode hexval)
  if raw.length ≠ epochSecretLen then
    .err (bad "secret wrong length")
  else do
    let arr ← fromSlice epochSecretLen raw
    pure (secrets.insert epoch arr)

/-- The members of `epoch_secrets`, in the order of the map. -/
def restoreSecrets (H : Hex.Codec) (secrets : EpochSecrets) :
    List (String × Value φ) → Outcome DmSessionError EpochSecrets
  | [] => pure secrets
  | entry :: rest => do
      let secrets ← restoreSecret H secrets entry
      restoreSecrets H secrets rest

/-- The KAM; whatever is not a string counts as none. -/
def restoreKam (H : Hex.Codec) : Option (Value φ) → Outcome DmSessionError (Option Bytes)
  | some (.string h) => do
      let kam ← Outcome.okOr (bad "bad current_kam hex") (H.decode h)
      pure (some kam)
  | _ => pure none

/-- The ratchet, its secret from the store and its bounds from the session. -/
def restoreRatchet (s : DmSession φ) (rt : Value φ) : Outcome DmSessionError (DmRatchet φ) := do
  let epoch ← Outcome.okOr (bad "ratchet.epoch") ((rt.get "epoch").bind Value.asU64)
  let messageIndex ← Outcome.okOr (bad "ratchet.message_index")
    ((rt.get "message_index").bind Value.asU64)
  let epochStartedAt ← Outcome.okOr (bad "ratchet.epoch_started_at")
    ((rt.get "epoch_started_at").bind Value.asF64)
  let epochSecret ← Outcome.okOr (bad "ratchet epoch has no stored secret") s.epochSecrets[epoch]?
  pure
    { epoch := epoch
      epochSecret := epochSecret
      messageIndex := messageIndex
      rekeyMsgBound := s.rekeyMsgBound
      rekeyAgeSeconds := s.rekeyAgeSeconds
      epochStartedAt := epochStartedAt }

/-- Rebuild a session from a snapshot. -/
def restore (H : Hex.Codec) (snap : Value φ) : Outcome DmSessionError (DmSession φ) := do
  let peer ← Outcome.okOr (bad "missing peer") ((snap.get "peer").bind Value.asStr)
  let rekeyMsgBound ← Outcome.okOr (bad "missing rekey_msg_bound")
    ((snap.get "rekey_msg_bound").bind Value.asU64)
  let rekeyAgeSeconds ← Outcome.okOr (bad "missing rekey_age_seconds")
    ((snap.get "rekey_age_seconds").bind Value.asU64)
  let s := withBounds peer rekeyMsgBound rekeyAgeSeconds
  let epochSecrets ← match (snap.get "epoch_secrets").bind Value.asObject with
    | some obj => restoreSecrets H s.epochSecrets obj
    | none => pure s.epochSecrets
  let currentKam ← restoreKam H (snap.get "current_kam")
  let s := { s with epochSecrets := epochSecrets, currentKam := currentKam }
  match snap.get "ratchet" with
  | none => pure s
  | some rt =>
      if rt.isNull then pure s
      else do
        let r ← restoreRatchet s rt
        pure { s with ratchet := some r }

/-! ## Conversations -/

/-- The clock gives finite readings: `now_secs` converts a `Duration`, and falls
back to `0.0`. -/
def Call.ClockFinite : Call φ → Prop
  | .seal _ _ draws => JsonF64.isFinite draws.startClock
  | .open _ _ => True

/-- The states that calls reach from the given ones. -/
def conversation (P : Primitives) (init : DmSession φ → Prop) :
    StateMachine (DmSession φ) (Call φ) where
  init := init
  accepts _ c := c.ClockFinite
  next s c := (s.call P c).2

/-- A session as `new` and `with_bounds` make it. -/
def Fresh (s : DmSession φ) : Prop :=
  ∃ peer rekeyMsgBound rekeyAgeSeconds, s = withBounds peer rekeyMsgBound rekeyAgeSeconds

/-- What a snapshot leaves out is in the session already. -/
structure Restorable (s : DmSession φ) : Prop where
  stored : ∀ r, s.ratchet = some r → s.epochSecrets[r.epoch]? = some r.epochSecret
  bounds : ∀ r, s.ratchet = some r →
    r.rekeyMsgBound = s.rekeyMsgBound ∧ r.rekeyAgeSeconds = s.rekeyAgeSeconds
  clock : ∀ r, s.ratchet = some r → JsonF64.isFinite r.epochStartedAt

/-- A fresh epoch stores what its ratchet was made of. -/
theorem Restorable.begun {s : DmSession φ} (epoch : UInt64) {draws : SealDraws φ} (kam : Bytes)
    (hclock : JsonF64.isFinite draws.startClock) : Restorable (s.begun epoch draws kam) := by
  constructor
  case stored => exact Coherent.begun s epoch draws kam
  case bounds =>
    intro r hr
    cases hr
    exact ⟨rfl, rfl⟩
  case clock =>
    intro r hr
    cases hr
    exact hclock

theorem Restorable.advance {s : DmSession φ} {r : DmRatchet φ} (h : Restorable s)
    (hratchet : s.ratchet = some r) : Restorable (s.advance r) := by
  constructor
  case stored => exact Coherent.advance h.stored hratchet
  case bounds =>
    intro r' hr'
    cases hr'
    exact h.bounds r hratchet
  case clock =>
    intro r' hr'
    cases hr'
    exact h.clock r hratchet

theorem Restorable.learned {s : DmSession φ} {epoch : UInt64} (h : Restorable s)
    (hvacant : s.epochSecrets[epoch]? = none) (secret : ByteBlock epochSecretLen) :
    Restorable (s.learned epoch secret) := by
  constructor
  case stored => exact Coherent.learned h.stored hvacant secret
  case bounds => exact h.bounds
  case clock => exact h.clock

/-- Every call keeps the ratchet backed by the store. -/
theorem Restorable.step {P : Primitives} {s : DmSession φ} {c : Call φ} (h : Restorable s)
    (hclock : c.ClockFinite) : Restorable (s.call P c).2 := by
  apply call_invariant Restorable h
  · rintro plaintext peerHybridPub draws epoch kam rfl
    exact .begun epoch kam hclock
  · intro s r hs hratchet
    exact hs.advance hratchet
  · intro epoch secret hvacant
    exact h.learned hvacant secret

theorem restorable_of_reachable {P : Primitives} {s : DmSession φ}
    (hs : (conversation P (Fresh (φ := φ))).Reachable s) : Restorable s := by
  refine hs.invariant Restorable ?_ ?_
  · rintro s ⟨peer, rekeyMsgBound, rekeyAgeSeconds, rfl⟩
    constructor <;> intro r hr <;> cases hr
  · intro s c _ hinv hclock
    exact hinv.step hclock

/-! ## Restoring a snapshot -/

variable {H : Hex.Codec}

/-- The members of a snapshot, by name. -/
theorem get_snapshot (s : DmSession φ) :
    (snapshot H s).get "peer" = some (.string s.peer) ∧
      (snapshot H s).get "rekey_msg_bound" = some (.number (.posInt s.rekeyMsgBound)) ∧
      (snapshot H s).get "rekey_age_seconds" = some (.number (.posInt s.rekeyAgeSeconds)) ∧
      (snapshot H s).get "epoch_secrets" =
        some (.object (toMap (s.epochSecrets.toList.map (secretMember H)))) ∧
      (snapshot H s).get "current_kam" = some (kamValue H s.currentKam) ∧
      (snapshot H s).get "ratchet" = some (ratchetValue s.ratchet) := by
  simp [snapshot, Value.get, toMap, lookup_insertMember]

omit [JsonF64 φ] in
/-- A stored secret is read back from its member. -/
theorem restoreSecret_secretMember (hex : H.Laws) (secrets : EpochSecrets) (epoch : UInt64)
    (secret : ByteBlock epochSecretLen) :
    restoreSecret H secrets (secretMember H (epoch, secret) : String × Value φ) =
      .ok (secrets.insert epoch secret) := by
  have hlen : ¬ secret.toList.length ≠ epochSecretLen := by simp
  simp only [restoreSecret, secretMember, parseU64_toString, Outcome.okOr_some, Outcome.ok_bind,
    Value.asStr, hex.decode_encode, if_neg hlen, fromSlice_toList, Outcome.pure_eq]

omit [JsonF64 φ] in
theorem secretMember_injective (hex : H.Laws) :
    Function.Injective (secretMember H : _ → String × Value φ) := by
  rintro ⟨epoch, secret⟩ ⟨epoch', secret'⟩ h
  simp only [secretMember, Prod.mk.injEq, Value.string.injEq] at h
  have hsecret := hex.encode_injective h.2
  rw [toString_u64_injective h.1, List.Vector.toList_injective hsecret]

/-- Every secret of the first store is in the second one. -/
def StoredIn (secrets store : EpochSecrets) : Prop :=
  ∀ (epoch : UInt64) secret, secrets[epoch]? = some secret → store[epoch]? = some secret

theorem StoredIn.insert {secrets store : EpochSecrets} {epoch : UInt64}
    {secret : ByteBlock epochSecretLen} (h : StoredIn secrets store)
    (hstored : store[epoch]? = some secret) : StoredIn (secrets.insert epoch secret) store := by
  intro e x hx
  rw [EpochSecrets.getElem?_insert] at hx
  split at hx
  · rename_i he
    cases hx
    rw [he, hstored]
  · exact h e x hx

/-- Inserting what the outer store holds overwrites nothing else. -/
theorem StoredIn.self_insert {secrets store : EpochSecrets} {epoch : UInt64}
    {secret : ByteBlock epochSecretLen} (h : StoredIn secrets store)
    (hstored : store[epoch]? = some secret) :
    StoredIn secrets (secrets.insert epoch secret) := by
  intro e x hx
  rw [EpochSecrets.getElem?_insert]
  split
  · rename_i he
    have hboth := h e x hx
    rw [he, hstored] at hboth
    exact hboth
  · exact hx

/-- Two stores that hold each other are one. -/
theorem StoredIn.antisymm {secrets store : EpochSecrets} (h : StoredIn secrets store)
    (h' : StoredIn store secrets) : secrets = store := by
  apply Std.ExtTreeMap.ext_getElem?
  intro epoch
  cases hsecret : secrets[epoch]? with
  | some secret => exact (h epoch secret hsecret).symm
  | none =>
      cases hstored : store[epoch]? with
      | none => rfl
      | some secret =>
          rw [h' epoch secret hstored] at hsecret
          cases hsecret

omit [JsonF64 φ] in
/-- Members of a store are read back into a store within it, which holds all of
them and whatever was there before. -/
theorem restoreSecrets_within (hex : H.Laws) {store : EpochSecrets}
    (members : List (String × Value φ))
    (hmembers : ∀ m ∈ members, ∃ (epoch : UInt64) (secret : ByteBlock epochSecretLen),
      m = secretMember H (epoch, secret) ∧ store[epoch]? = some secret)
    {secrets : EpochSecrets} (hsecrets : StoredIn secrets store) :
    ∃ restored : EpochSecrets, restoreSecrets H secrets members = .ok restored ∧
      StoredIn restored store ∧ StoredIn secrets restored ∧
      ∀ (epoch : UInt64) secret, secretMember H (epoch, secret) ∈ members →
        restored[epoch]? = some secret := by
  induction members generalizing secrets with
  | nil => exact ⟨secrets, rfl, hsecrets, fun _ _ h => h, fun _ _ h => by cases h⟩
  | cons m rest ih =>
      rcases hmembers m List.mem_cons_self with ⟨epoch, secret, rfl, hstored⟩
      rcases ih (fun m hm => hmembers m (List.mem_cons_of_mem _ hm)) (hsecrets.insert hstored)
        with ⟨restored, hrestored, hwithin, hkept, hholds⟩
      refine ⟨restored, ?_, hwithin, ?_, ?_⟩
      · rw [restoreSecrets, restoreSecret_secretMember hex, Outcome.ok_bind, hrestored]
      · intro e x hx
        exact hkept e x (hsecrets.self_insert hstored e x hx)
      · intro e x hx
        rcases List.mem_cons.mp hx with hx | hx
        · cases secretMember_injective hex hx
          apply hkept
          rw [EpochSecrets.getElem?_insert, if_pos rfl]
        · exact hholds e x hx

omit [JsonF64 φ] in
/-- The members of a store. -/
theorem mem_secretMembers {store : EpochSecrets} {m : String × Value φ} :
    m ∈ store.toList.map (secretMember H) ↔
      ∃ (epoch : UInt64) (secret : ByteBlock epochSecretLen),
        m = secretMember H (epoch, secret) ∧ store[epoch]? = some secret := by
  constructor
  · intro hm
    rcases List.mem_map.mp hm with ⟨⟨epoch, secret⟩, hentry, rfl⟩
    exact ⟨epoch, secret, rfl, Std.ExtTreeMap.mem_toList_iff_getElem?_eq_some.mp hentry⟩
  · rintro ⟨epoch, secret, rfl, hstored⟩
    exact List.mem_map_of_mem (Std.ExtTreeMap.mem_toList_iff_getElem?_eq_some.mpr hstored)

omit [JsonF64 φ] in
/-- The store is read back from its members. -/
theorem restoreSecrets_toMap (hex : H.Laws) (store : EpochSecrets) :
    restoreSecrets H ∅ (toMap (store.toList.map (secretMember H)) : List (String × Value φ)) =
      .ok store := by
  have hunique : ∀ m ∈ store.toList.map (secretMember H),
      ∀ m' ∈ (store.toList.map (secretMember H) : List (String × Value φ)),
        m.1 = m'.1 → m = m' := by
    intro m hm m' hm' hkey
    rcases mem_secretMembers.mp hm with ⟨epoch, secret, rfl, hstored⟩
    rcases mem_secretMembers.mp hm' with ⟨epoch', secret', rfl, hstored'⟩
    have hepoch : epoch = epoch' := toString_u64_injective hkey
    subst hepoch
    rw [hstored] at hstored'
    cases hstored'
    rfl
  have hempty : StoredIn ∅ store := by
    intro epoch secret h
    simp at h
  rcases restoreSecrets_within hex (toMap (store.toList.map (secretMember H)))
    (fun m hm => mem_secretMembers.mp ((mem_toMap_iff hunique m).mp hm)) hempty
    with ⟨restored, hrestored, hwithin, -, hholds⟩
  rw [hrestored]
  congr 1
  apply hwithin.antisymm
  intro epoch secret hstored
  apply hholds
  exact (mem_toMap_iff hunique _).mpr (mem_secretMembers.mpr ⟨epoch, secret, rfl, hstored⟩)

omit [JsonF64 φ] in
theorem restoreKam_kamValue (hex : H.Laws) (kam : Option Bytes) :
    restoreKam H (some (kamValue H kam : Value φ)) = .ok kam := by
  cases kam with
  | none => rfl
  | some kam => simp [kamValue, restoreKam, hex.decode_encode]

/-- A ratchet is restored from its three members, from the secret stored for its
epoch and from the bounds of the session. -/
theorem restoreRatchet_eq_ok_iff {s : DmSession φ} {rt : Value φ} {r : DmRatchet φ} :
    restoreRatchet s rt = .ok r ↔
      (rt.get "epoch").bind Value.asU64 = some r.epoch ∧
        (rt.get "message_index").bind Value.asU64 = some r.messageIndex ∧
        (rt.get "epoch_started_at").bind Value.asF64 = some r.epochStartedAt ∧
        s.epochSecrets[r.epoch]? = some r.epochSecret ∧
        r.rekeyMsgBound = s.rekeyMsgBound ∧ r.rekeyAgeSeconds = s.rekeyAgeSeconds := by
  simp only [restoreRatchet, Outcome.bind_eq_ok_iff, Outcome.okOr_eq_ok_iff, Outcome.pure_eq,
    Outcome.ok.injEq]
  constructor
  · rintro ⟨epoch, hepoch, index, hindex, start, hstart, secret, hsecret, rfl⟩
    exact ⟨hepoch, hindex, hstart, hsecret, rfl, rfl⟩
  · rintro ⟨hepoch, hindex, hstart, hsecret, hbound, hage⟩
    refine ⟨_, hepoch, _, hindex, _, hstart, _, hsecret, ?_⟩
    rw [← hbound, ← hage]

/-- The ratchet is rebuilt from its position, the store and the bounds. -/
theorem restoreRatchet_ratchetValue {s s' : DmSession φ} {r : DmRatchet φ} (h : Restorable s)
    (hratchet : s.ratchet = some r) (hsecrets : s'.epochSecrets = s.epochSecrets)
    (hmsg : s'.rekeyMsgBound = s.rekeyMsgBound) (hage : s'.rekeyAgeSeconds = s.rekeyAgeSeconds) :
    restoreRatchet s' (ratchetValue (some r)) = .ok r := by
  have hepoch : (ratchetValue (some r)).get "epoch" = some (.number (.posInt r.epoch)) := by
    simp [ratchetValue, Value.get, toMap, lookup_insertMember]
  have hindex : (ratchetValue (some r)).get "message_index" =
      some (.number (.posInt r.messageIndex)) := by
    simp [ratchetValue, Value.get, toMap, lookup_insertMember]
  have hstart : (ratchetValue (some r)).get "epoch_started_at" =
      some (.number (.float r.epochStartedAt)) := by
    simp [ratchetValue, Value.get, toMap, lookup_insertMember, Value.ofF64, h.clock r hratchet]
  rcases h.bounds r hratchet with ⟨hbound, hold⟩
  rw [restoreRatchet_eq_ok_iff, hepoch, hindex, hstart, hsecrets, hmsg, hage]
  exact ⟨rfl, rfl, rfl, h.stored r hratchet, hbound, hold⟩

/-- A session whose ratchet is backed by its store is restored as it was. -/
theorem restore_snapshot (hex : H.Laws) {s : DmSession φ} (h : Restorable s) :
    restore H (snapshot H s) = .ok s := by
  rcases get_snapshot s with ⟨hpeer, hmsg, hage, hsecrets, hkam, hratchet⟩
  unfold restore
  rw [hpeer, hmsg, hage, hsecrets, hkam, hratchet]
  simp only [Option.bind_some, Value.asStr, Value.asU64, Value.asObject, Outcome.okOr_some,
    Outcome.ok_bind, withBounds, restoreSecrets_toMap hex, restoreKam_kamValue hex]
  rcases s with ⟨peer, rekeyMsgBound, rekeyAgeSeconds, ratchet, epochSecrets, currentKam⟩
  cases ratchet with
  | none => rfl
  | some r =>
      have hnull : ¬ (ratchetValue (some r)).isNull = true := Bool.false_ne_true
      have hrebuilt : restoreRatchet
          ⟨peer, rekeyMsgBound, rekeyAgeSeconds, none, epochSecrets, currentKam⟩
            (ratchetValue (some r)) = .ok r :=
        restoreRatchet_ratchetValue h rfl rfl rfl rfl
      dsimp only
      rw [if_neg hnull, hrebuilt]
      rfl

/-- Every session that calls can reach is restored from its snapshot, and goes
on as it would have. -/
theorem snapshot_lossless {P : Primitives} (hex : H.Laws) {s : DmSession φ}
    (hs : (conversation P (Fresh (φ := φ))).Reachable s) :
    ∃ s', restore H (snapshot H s) = .ok s' ∧ s' = s ∧
      ∀ calls, s'.replies P calls = s.replies P calls :=
  ⟨s, restore_snapshot hex (restorable_of_reachable hs), rfl, fun _ => rfl⟩

/-- The session after one seal is restored from its snapshot. -/
theorem snapshot_lossless_one_seal :
    let c : Call Int := .seal [104, 105] (Sample.keys 2).publicKey (Sample.draws 7)
    let s := ((withBounds "bob" 5 600).call Primitives.transparent c).2
    ∃ s', restore Hex.standard (snapshot Hex.standard s) = .ok s' ∧ s' = s ∧
      ∀ calls,
        s'.replies Primitives.transparent calls = s.replies Primitives.transparent calls := by
  intro c s
  have hstart : (conversation Primitives.transparent (Fresh (φ := Int))).Reachable
      (withBounds "bob" 5 600) := .init ⟨"bob", 5, 600, rfl⟩
  have hclock : c.ClockFinite := rfl
  clear_value c
  exact snapshot_lossless Hex.standard_laws (hstart.step c hclock)

end DmSession
end SkPqc
