import Mathlib.Data.List.Forall2
import W2uos.Exec.HotUpdate
import W2uos.Node.Environment

/-!
# Redaction

`NodeConfig::redacted` masks the credentials of the API users and of the exchange sections, for
display.  The execution section may hold credentials of OKX as well; they are shown.

What a masked value may depend on is a relation: two settings that differ in the contents of their
credentials only are to look the same.

* `Masks.list`, `Masks.option` : masking the parts masks the whole;
* `redacted_same` : only credentials are masked;
* `redacted_masks_iff` : exactly when the credentials do not show.
-/

/-! ### Masks -/

section Masks

variable {α β : Type*} {R : α → α → Prop} {f : α → β}

/-- What `R` relates looks the same through `f`. -/
def Masks (R : α → α → Prop) (f : α → β) : Prop := ∀ a b, R a b → f a = f b

theorem Masks.list (h : Masks R f) : Masks (List.Forall₂ R) (List.map f) := by
  intro as bs hrel
  induction hrel with
  | nil => rfl
  | cons hhead _ ih => rw [List.map_cons, List.map_cons, h _ _ hhead, ih]

theorem Masks.option (h : Masks R f) : Masks (Option.Rel R) (Option.map f) := by
  rintro _ _ (hrel | _)
  · exact congrArg some (h _ _ hrel)
  · rfl

/-- A mask that changes nothing but what `R` allows keeps a list related to itself. -/
theorem forall₂_map_self {f : α → α} (h : ∀ a, R a (f a)) (as : List α) :
    List.Forall₂ R as (as.map f) := by
  rw [List.forall₂_map_right_iff, List.forall₂_same]
  exact fun a _ => h a

theorem optionRel_map_self {f : α → α} (h : ∀ a, R a (f a)) (a : Option α) :
    Option.Rel R a (a.map f) := by
  cases a with
  | none => exact Option.Rel.none
  | some a => exact Option.Rel.some (h a)

theorem optionRel_self (h : ∀ a, R a a) (a : Option α) : Option.Rel R a a := by
  cases a with
  | none => exact Option.Rel.none
  | some a => exact Option.Rel.some (h a)

end Masks

namespace W2uos

/-! ### The settings, for display -/

/-- What is shown of a credential. -/
def redactedText : String := "***"

/-- The user with the digest of its key masked. -/
def ApiUserConfig.redacted (user : ApiUserConfig) : ApiUserConfig :=
  { user with apiKeyHash := redactedText }

/-- The credentials, masked; a passphrase that is not there is not shown. -/
def ExchangeCredentials.redacted (creds : ExchangeCredentials) : ExchangeCredentials where
  apiKey := redactedText
  apiSecret := redactedText
  passphrase := creds.passphrase.map fun _ => redactedText

/-- The exchange section with its credentials masked. -/
def ExchangeConfig.redacted (exchange : ExchangeConfig) : ExchangeConfig :=
  { exchange with credentials := exchange.credentials.map ExchangeCredentials.redacted }

/-- `NodeConfig::redacted`.  The execution section is shown as it is. -/
def NodeSettings.redacted (cfg : NodeSettings) : NodeSettings :=
  { cfg with
    api := { cfg.api with users := cfg.api.users.map ApiUserConfig.redacted }
    exchanges := cfg.exchanges.map ExchangeConfig.redacted }

/-! ### Settings that differ in credentials -/

/-- The users differ in the digests of their keys only. -/
def ApiUserConfig.SameUpToKey (user other : ApiUserConfig) : Prop :=
  user.id = other.id ∧ user.role = other.role

/-- The credentials differ in their contents only. -/
def ExchangeCredentials.SameParts (creds other : ExchangeCredentials) : Prop :=
  creds.passphrase.isSome = other.passphrase.isSome

/-- The exchange sections differ in the contents of their credentials only. -/
structure ExchangeConfig.SameUpToCredentials (exchange other : ExchangeConfig) : Prop where
  rest : { exchange with credentials := none } = { other with credentials := none }
  credentials : Option.Rel ExchangeCredentials.SameParts exchange.credentials other.credentials

/-- The OKX parts of the execution sections differ in the contents of their credentials only. -/
structure OkxExecutionConfig.SameUpToCredentials (okx other : OkxExecutionConfig) : Prop where
  restBaseUrl : okx.restBaseUrl = other.restBaseUrl
  wsPrivateUrl : okx.wsPrivateUrl = other.wsPrivateUrl
  passphrase : okx.credentials.passphrase.isSome = other.credentials.passphrase.isSome

/-- The settings without the parts that hold credentials. -/
def NodeSettings.withoutCredentials (cfg : NodeSettings) : NodeSettings :=
  { cfg with
    api := { cfg.api with users := [] }
    exchanges := []
    execution := { cfg.execution with okx := none } }

/-- The settings differ in the contents of credentials only. -/
structure NodeSettings.SameUpToCredentials (cfg other : NodeSettings) : Prop where
  rest : cfg.withoutCredentials = other.withoutCredentials
  users : List.Forall₂ ApiUserConfig.SameUpToKey cfg.api.users other.api.users
  exchanges : List.Forall₂ ExchangeConfig.SameUpToCredentials cfg.exchanges other.exchanges
  okx : Option.Rel OkxExecutionConfig.SameUpToCredentials cfg.execution.okx other.execution.okx

/-! ### What the parts show -/

theorem user_masks : Masks ApiUserConfig.SameUpToKey ApiUserConfig.redacted := by
  rintro ⟨id, role, key⟩ ⟨id', role', key'⟩ ⟨hid, hrole⟩
  cases hid
  cases hrole
  rfl

theorem credentials_masks : Masks ExchangeCredentials.SameParts ExchangeCredentials.redacted := by
  rintro ⟨key, secret, passphrase⟩ ⟨key', secret', passphrase'⟩ hparts
  cases passphrase <;> cases passphrase' <;> first | rfl | cases hparts

theorem exchange_masks : Masks ExchangeConfig.SameUpToCredentials ExchangeConfig.redacted := by
  rintro ⟨kind, env, rest, pub, priv, creds, weight⟩ ⟨kind', env', rest', pub', priv', creds',
    weight'⟩ ⟨hrest, hcreds⟩
  cases hrest
  have hshown := credentials_masks.option _ _ hcreds
  exact congrArg (fun creds => (⟨kind, env, rest, pub, priv, creds, weight⟩ : ExchangeConfig))
    hshown

theorem credentials_redacted_same (creds : ExchangeCredentials) :
    creds.SameParts creds.redacted := by
  rw [ExchangeCredentials.SameParts, ExchangeCredentials.redacted, Option.isSome_map]

theorem exchange_redacted_same (exchange : ExchangeConfig) :
    exchange.SameUpToCredentials exchange.redacted where
  rest := rfl
  credentials := optionRel_map_self credentials_redacted_same exchange.credentials

/-- **Only credentials are masked**: the settings shown differ from the settings in the contents of
credentials only. -/
theorem redacted_same (cfg : NodeSettings) : cfg.SameUpToCredentials cfg.redacted where
  rest := rfl
  users := forall₂_map_self (fun _ => ⟨rfl, rfl⟩) cfg.api.users
  exchanges := forall₂_map_self exchange_redacted_same cfg.exchanges
  okx := optionRel_self (fun _ => ⟨rfl, rfl, rfl⟩) cfg.execution.okx

/-! ### What the settings show -/

/-- Settings that differ in credentials only show the same users and exchange sections. -/
theorem NodeSettings.SameUpToCredentials.shown {cfg other : NodeSettings}
    (h : cfg.SameUpToCredentials other) :
    cfg.api.users.map ApiUserConfig.redacted = other.api.users.map ApiUserConfig.redacted ∧
      cfg.exchanges.map ExchangeConfig.redacted = other.exchanges.map ExchangeConfig.redacted :=
  ⟨user_masks.list _ _ h.users, exchange_masks.list _ _ h.exchanges⟩

theorem NodeSettings.redacted_eq (cfg : NodeSettings) :
    cfg.redacted =
      { cfg.withoutCredentials with
        api :=
          { cfg.withoutCredentials.api with
            users := cfg.api.users.map ApiUserConfig.redacted }
        exchanges := cfg.exchanges.map ExchangeConfig.redacted
        execution := { cfg.withoutCredentials.execution with okx := cfg.execution.okx } } := rfl

/-- **Exactly when the credentials do not show.**  Only the contents of credentials are masked; and
of two settings that differ in them only, the same is shown exactly if the OKX parts of the
execution sections are the same. -/
theorem redacted_masks_iff (cfg other : NodeSettings) (h : cfg.SameUpToCredentials other) :
    cfg.SameUpToCredentials cfg.redacted ∧
      (cfg.redacted = other.redacted ↔ cfg.execution.okx = other.execution.okx) := by
  refine ⟨redacted_same cfg, fun heq => ?_, fun hokx => ?_⟩
  · exact congrArg (fun shown => shown.execution.okx) heq
  · obtain ⟨husers, hexchanges⟩ := h.shown
    rw [cfg.redacted_eq, other.redacted_eq, h.rest, husers, hexchanges, hokx]

/-- Settings whose execution section has an OKX account with the given secret. -/
def settingsWithSecret (apiSecret : String) : NodeSettings where
  toNodeConfig :=
    { NodeConfig.default with
      execution :=
        { liveOkxConfig with
          okx := liveOkxConfig.okx.map fun okx =>
            { okx with credentials := { okx.credentials with apiSecret := apiSecret } } } }
  nodeId := "node-1"
  nodeRole := .allInOne
  api := { bind := "0.0.0.0:8080", users := [⟨"admin", "Admin", "digest"⟩] }

/-- Settings with an exchange section that has an account with the given key. -/
def settingsWithKey (apiKey : String) : NodeSettings :=
  { settingsWithSecret "secret" with
    exchanges :=
      [{ ExchangeConfig.okxDefaults .mainnet with credentials := some ⟨apiKey, apiKey, none⟩ }] }

theorem redacted_masks_iff_keys :
    settingsWithKey "one" ≠ settingsWithKey "other" ∧
      (settingsWithKey "one").redacted = (settingsWithKey "other").redacted := by
  have hsame : (settingsWithKey "one").SameUpToCredentials (settingsWithKey "other") := by
    refine ⟨rfl, List.forall₂_same.2 fun _ _ => ⟨rfl, rfl⟩, ?_,
      Option.Rel.some ⟨rfl, rfl, rfl⟩⟩
    exact List.Forall₂.cons ⟨rfl, Option.Rel.some rfl⟩ List.Forall₂.nil
  exact ⟨by decide, (redacted_masks_iff _ _ hsame).2.2 rfl⟩

/-- **A secret that shows**: the settings differ in the secret of the execution section only. -/
theorem not_redacted_masks :
    (settingsWithSecret "one").SameUpToCredentials (settingsWithSecret "other") ∧
      (settingsWithSecret "one").redacted ≠ (settingsWithSecret "other").redacted := by
  refine ⟨⟨rfl, ?_, ?_, Option.Rel.some ⟨rfl, rfl, rfl⟩⟩, by decide⟩
  · exact List.forall₂_same.2 fun _ _ => ⟨rfl, rfl⟩
  · exact List.forall₂_same.2 fun exchange _ =>
      ⟨rfl, optionRel_self (fun creds => Eq.refl creds.passphrase.isSome) exchange.credentials⟩

end W2uos
