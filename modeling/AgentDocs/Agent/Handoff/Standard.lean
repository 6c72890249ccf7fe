import AgentDocs.Agent.Handoff

/-!
# The standard suggestions

The suggestions for the commands of the standard namespace and of the operational roles. Only two of
them are sent without asking.
-/

namespace AgentDocs

/-- A suggestion that waits for an answer. -/
def ask (label agent prompt : String) : HandoffRule := ⟨label, agent, prompt, false⟩

/-- A suggestion that is sent at once. -/
def send (label agent prompt : String) : HandoffRule := ⟨label, agent, prompt, true⟩

/-- The suggestions of the standard namespace. -/
def standardNamespaced : List HandoffRow := [
  ⟨"flow", "assess", [
    ask "Specify Requirements" "flow-specify"
      "Create the feature specification from the assessment above."]⟩,
  ⟨"flow", "specify", [
    ask "Research Unknowns" "flow-research"
      "Research the open questions raised by the specification.",
    ask "Plan Architecture" "flow-plan"
      "Plan the technical architecture for the specification above."]⟩,
  ⟨"flow", "research", [
    ask "Plan Architecture" "flow-plan"
      "Plan the architecture using the research findings above."]⟩,
  ⟨"flow", "plan", [
    ask "Start Implementation" "flow-implement"
      "Implement the tasks from the plan above."]⟩,
  ⟨"flow", "implement", [
    ask "Validate Implementation" "flow-validate"
      "Validate the implementation above against its acceptance criteria."]⟩,
  ⟨"flow", "validate", [
    ask "Deploy to Operations" "flow-operate"
      "Prepare deployment and operations for the validated change."]⟩]

/-- The suggestions of the operational roles. -/
def standardOperational : List HandoffRow := [
  ⟨"pm", "assess", [
    ask "Define Requirements" "pm-define"
      "Define the product requirements based on the assessment above."]⟩,
  ⟨"pm", "define", [
    ask "Discover Unknowns" "pm-discover"
      "Investigate the open questions in the requirements above.",
    ask "Design Architecture" "arch-design"
      "Design the architecture for the requirements above."]⟩,
  ⟨"pm", "discover", [
    ask "Design Architecture" "arch-design"
      "Design the architecture using the discovery findings above."]⟩,
  ⟨"arch", "design", [
    ask "Record Decisions" "arch-decide"
      "Record architecture decisions for the design above.",
    ask "Start Building" "dev-build"
      "Implement the design above."]⟩,
  ⟨"arch", "decide", [
    ask "Start Building" "dev-build"
      "Implement the design following the recorded decisions."]⟩,
  ⟨"arch", "model", [
    ask "Start Building" "dev-build"
      "Implement the modeled components."]⟩,
  ⟨"dev", "build", [
    ask "Run Tests" "qa-test"
      "Test the implementation above.",
    ask "Security Scan" "sec-scan"
      "Scan the changes above for security issues."]⟩,
  ⟨"dev", "debug", [
    ask "Continue Building" "dev-build"
      "Continue implementation with the fix above applied."]⟩,
  ⟨"dev", "refactor", [
    send "Run Tests" "qa-test"
      "Verify the refactoring above preserves behavior."]⟩,
  ⟨"sec", "scan", [
    ask "Triage Findings" "sec-triage"
      "Triage the security findings above."]⟩,
  ⟨"sec", "triage", [
    ask "Fix Findings" "sec-fix"
      "Fix the triaged security findings above."]⟩,
  ⟨"sec", "fix", [
    ask "Verify Fixes" "qa-verify"
      "Verify the security fixes above."]⟩,
  ⟨"qa", "test", [
    ask "Verify Release" "qa-verify"
      "Verify the release candidate using the test results above."]⟩,
  ⟨"qa", "verify", [
    ask "Deploy" "ops-deploy"
      "Deploy the verified release."]⟩,
  ⟨"qa", "review", [
    ask "Deploy" "ops-deploy"
      "Deploy the reviewed release."]⟩,
  ⟨"ops", "deploy", [
    send "Monitor" "ops-monitor"
      "Monitor the deployment above."]⟩]

/-- The standard suggestions. -/
def HandoffTable.standard : HandoffTable := ⟨standardNamespaced, standardOperational⟩

end AgentDocs
