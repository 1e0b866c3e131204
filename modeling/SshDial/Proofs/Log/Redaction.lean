import SshDial.Proofs.Log.KeyBlock
import SshDial.Proofs.Log.NamedSecret

/-! # Redaction — no secret survives

    `Secret.hideInText` makes four passes over a text, and each can take away what another
    one looks for.  `NamedSecret.Exposed` and `KeyBlock.Exposed` say when that can happen: a
    name, or the last line of a key block, stands open before the secret and takes its name
    or its first line.  In all other texts nothing is left of a secret (`redaction`). -/

namespace SshDial.Secret

open SshDial.Text

/-- A text with a secret in it, behind its name or between the lines of a key block. -/
inductive SecretText where
  | named (m : NamedSecret)
  | block (m : KeyBlock)

namespace SecretText

def text : SecretText → List Char
  | .named m => m.text
  | .block m => m.text

def secret : SecretText → List Char
  | .named m => m.secret
  | .block m => m.content

/-- The text without the secret. -/
def shell : SecretText → List Char
  | .named m => m.shell
  | .block m => m.shell

/-- What stands before the secret can take away what marks it. -/
def Exposed : SecretText → Prop
  | .named m => m.Exposed
  | .block m => m.Exposed

theorem only_hideInText : ∀ t : SecretText, ¬ t.Exposed →
    Only t.shell (hideInText (String.ofList t.text)).toList
  | .named m, h => (m.only_hideInText h).mono m.rest_subset_shell
  | .block m, h => m.only_hideInText h

end SecretText

/-- **Redaction.** In a text with a secret that is not exposed, no character of the secret
    that occurs nowhere else in the text, and is not the mask's, is left. -/
theorem redaction (t : SecretText) (hexposed : ¬ t.Exposed) :
    ∀ c ∈ t.secret, c ∉ t.shell → c ≠ '*' →
      c ∉ (hideInText (String.ofList t.text)).toList := by
  intro c _ hshell hstar hmem
  rcases t.only_hideInText hexposed c hmem with hrest | hmask
  · exact hshell hrest
  · exact hstar hmask

/-- A password on a command line, and a key in a message. -/
theorem redaction_password_key :
    (∃ t : SecretText, t.text = "ssh -o Password=hunter2 web".toList ∧ ¬ t.Exposed
      ∧ ∀ c ∈ "hunter2".toList, c ∉ t.shell → c ≠ '*' →
        c ∉ (hideInText (String.ofList t.text)).toList)
    ∧ (∃ t : SecretText, t.text = "bad -----BEGIN RSA-----MIIE-----END RSA-----".toList
      ∧ ¬ t.Exposed ∧ ∀ c ∈ "MIIE".toList, c ∉ t.shell → c ≠ '*' →
        c ∉ (hideInText (String.ofList t.text)).toList) := by
  constructor
  · let m : NamedSecret := {
      before := "ssh -o ".toList, name := "password", word := "Password".toList
      separators := "=".toList, secret := "hunter2".toList, after := " web".toList
      mem := by decide, isName := by decide, ne_nil := by decide
      areSeparators := List.all_eq_true.mp rfl
      isSecret := ⟨by decide, 'h', "unter2".toList, rfl, by decide⟩
      startsBlank := by decide }
    have hexposed : ¬ m.Exposed := by
      rintro ⟨hblank, -⟩
      exact hblank (by decide)
    exact ⟨.named m, by decide, hexposed, redaction (.named m) hexposed⟩
  · let m : KeyBlock := {
      before := "bad ".toList, label := "RSA".toList, content := "MIIE".toList, after := []
      label_ne_nil := by decide, label_free := by decide, content_free := by decide }
    have hshort : ∀ n ∈ names, ∀ s ∈ [m.before, m.label, m.content],
        ¬ n.toList.length < s.length := by decide
    have hexposed : ¬ m.Exposed := by
      rintro (⟨n, hn, h | h | h⟩ | h)
      · exact hshort n hn m.before (by simp) h.length_lt
      · exact hshort n hn m.label (by simp) h.length_lt
      · exact hshort n hn m.content (by simp) h.length_lt
      · have honly : Only m.before (hideNames names m.before) :=
          only_hideNames (fun n hn => hn) (only_self m.before)
        exact absurd (honly '-' h.dash_mem) (by decide)
    exact ⟨.block m, by decide, hexposed, redaction (.block m) hexposed⟩

/-- The name before a token takes the token's name for its own secret, and the token is left;
    or the first line of a key block, and the key is left. -/
theorem secret_left_of_open_name :
    (∃ t : SecretText, t.text = "password token: hunter2".toList
      ∧ 'h' ∈ t.secret ∧ 'h' ∉ t.shell
      ∧ 'h' ∈ (hideInText (String.ofList t.text)).toList)
    ∧ ∃ t : SecretText, t.text = "password: -----BEGIN RSA-----MIIE-----END RSA-----".toList
      ∧ 'M' ∈ t.secret ∧ 'M' ∉ t.shell
      ∧ 'M' ∈ (hideInText (String.ofList t.text)).toList := by
  constructor
  · let m : NamedSecret := {
      before := "password ".toList, name := "token", word := "token".toList
      separators := ": ".toList, secret := "hunter2".toList, after := []
      mem := by decide, isName := by decide, ne_nil := by decide
      areSeparators := List.all_eq_true.mp rfl
      isSecret := ⟨by decide, 'h', "unter2".toList, rfl, by decide⟩
      startsBlank := by decide }
    exact ⟨.named m, by decide, by decide, by decide, by decide +kernel⟩
  · let m : KeyBlock := {
      before := "password: ".toList, label := "RSA".toList, content := "MIIE".toList, after := []
      label_ne_nil := by decide, label_free := by decide, content_free := by decide }
    exact ⟨.block m, by decide, by decide, by decide, by decide +kernel⟩

end SshDial.Secret
