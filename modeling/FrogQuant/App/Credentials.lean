import FrogQuant.App.ServiceRuns

/-!
# The credentials file

What `write_credentials_file` stores is two lines of text, and what
`read_credentials_file` keeps is what follows a label on the last line that has
it.
-/

namespace FrogQuant.App

/-! ## Reading a line -/

theorem readCredentialLine_apiKey (keys : Text × Text) (v : Text) :
    readCredentialLine keys (apiKeyLabel ++ v) = (v, keys.2) := by
  have hself : apiKeyLabel.isPrefixOf (apiKeyLabel ++ v) = true := by simp
  have hother : secretKeyLabel.isPrefixOf (apiKeyLabel ++ v) = false := rfl
  simp only [readCredentialLine, hself, hother]
  rfl

theorem readCredentialLine_secretKey (keys : Text × Text) (v : Text) :
    readCredentialLine keys (secretKeyLabel ++ v) = (keys.1, v) := by
  have hself : secretKeyLabel.isPrefixOf (secretKeyLabel ++ v) = true := by simp
  have hother : apiKeyLabel.isPrefixOf (secretKeyLabel ++ v) = false := rfl
  simp only [readCredentialLine, hself, hother]
  rfl

/-- Both values lie within a line. -/
def OnOneLine (keys : Text × Text) : Prop := '\n' ∉ keys.1 ∧ '\n' ∉ keys.2

theorem OnOneLine.readCredentialLine {keys : Text × Text} (h : OnOneLine keys) {line : Text}
    (hline : '\n' ∉ line) : OnOneLine (readCredentialLine keys line) := by
  have hdrop : ∀ n, '\n' ∉ line.drop n := fun n hmem ↦ hline (List.mem_of_mem_drop hmem)
  constructor
  · simp only [App.readCredentialLine]
    split_ifs
    · exact hdrop 24
    · exact h.1
  · simp only [App.readCredentialLine]
    split_ifs
    · exact hdrop 27
    · exact h.2

theorem onOneLine_readCredentialsFile (t : Text) :
    OnOneLine (readCredentialsFile (some t) ([], [])) :=
  List.foldlRecOn (motive := OnOneLine) (lines t) App.readCredentialLine
    ⟨List.not_mem_nil, List.not_mem_nil⟩
    fun _ h _ hmem ↦ OnOneLine.readCredentialLine h (notMem_of_mem_lines hmem)

/-! ## The round trip -/

theorem lines_credentialsText {apiKey secretKey : Text} (h : OnOneLine (apiKey, secretKey)) :
    lines (credentialsText apiKey secretKey) =
      [apiKeyLabel ++ apiKey, secretKeyLabel ++ secretKey] := by
  have hlabels : '\n' ∉ apiKeyLabel ∧ '\n' ∉ secretKeyLabel := by decide
  have hlines : ∀ line ∈ [apiKeyLabel ++ apiKey, secretKeyLabel ++ secretKey], '\n' ∉ line := by
    simp [hlabels, h.1, h.2]
  have hread := lines_terminated hlines
  simpa [credentialsText] using hread

/-- Two values are read back from the file exactly if neither breaks its
line. -/
theorem readCredentialsFile_credentialsText_iff (apiKey secretKey : Text) :
    readCredentialsFile (some (credentialsText apiKey secretKey)) ([], []) = (apiKey, secretKey) ↔
      OnOneLine (apiKey, secretKey) := by
  constructor
  · intro h
    rw [← h]
    exact onOneLine_readCredentialsFile _
  · intro h
    rw [readCredentialsFile, lines_credentialsText h, List.foldl_cons, List.foldl_cons,
      List.foldl_nil, readCredentialLine_apiKey, readCredentialLine_secretKey]

/-! ## The route -/

/-- The two strings the route takes from a body. -/
def postedKeys (body : Text) : Text × Text :=
  ((jsonGetString body "api_key").getD [], (jsonGetString body "secret_key").getD [])

namespace ApiState

/-- An update that is acknowledged has stored the two strings. -/
theorem credentialsFile_of_ok {s : ApiState} {env : RequestEnv} {body : Text}
    (h : (s.postCredentialsUpdate env body).2.status = 200) :
    (s.postCredentialsUpdate env body).1.credentialsFile =
      some (credentialsText (postedKeys body).1 (postedKeys body).2) := by
  simp only [postCredentialsUpdate] at h ⊢
  split_ifs at h ⊢
  · cases h
  · rfl
  · cases h

/-- An acknowledged update is read back as it was sent exactly if neither
string contains a line break. -/
theorem credentials_read_back_iff (s : ApiState) (env : RequestEnv) (body : Text)
    (h : (s.handle env ⟨"POST", "/credentials/update", body⟩).2.status = 200) :
    readCredentialsFile (s.handle env ⟨"POST", "/credentials/update", body⟩).1.credentialsFile
        ([], []) = postedKeys body ↔
      '\n' ∉ (postedKeys body).1 ∧ '\n' ∉ (postedKeys body).2 := by
  change (s.postCredentialsUpdate env body).2.status = 200 at h
  change readCredentialsFile (s.postCredentialsUpdate env body).1.credentialsFile _ = _ ↔ _
  rw [credentialsFile_of_ok h]
  exact readCredentialsFile_credentialsText_iff _ _

/-- A body with the two strings. -/
def credentialsBody (apiKey secretKey : Text) : Text :=
  Json.object [Json.member "api_key" (Json.quoted apiKey),
    Json.member "secret_key" (Json.quoted secretKey)]

theorem credentials_read_back_plain :
    readCredentialsFile ((start liveStartup).handle (quietEnv 0)
        ⟨"POST", "/credentials/update", credentialsBody "key" "secret"⟩).1.credentialsFile
      ([], []) = postedKeys (credentialsBody "key" "secret") :=
  (credentials_read_back_iff (start liveStartup) (quietEnv 0) (credentialsBody "key" "secret")
    (by decide +kernel)).mpr (by decide +kernel)

/-- A secret with a line break puts another API key into the file. -/
theorem secret_overwrites_apiKey :
    ¬ ∀ (s : ApiState) (env : RequestEnv) (body : Text),
      (s.handle env ⟨"POST", "/credentials/update", body⟩).2.status = 200 →
        readCredentialsFile (s.handle env ⟨"POST", "/credentials/update", body⟩).1.credentialsFile
          ([], []) = postedKeys body := by
  intro h
  have hread := h (start liveStartup) (quietEnv 0)
    (credentialsBody "key" "secret\nBINANCE_TESTNET_API_KEY=other") (by decide +kernel)
  exact absurd hread (by decide +kernel)

end ApiState

end FrogQuant.App
