import RevBox.Protocol.Envelope
import RevBox.Support.Text
import RevBox.Support.Utf8

/-!
# Agent — Privileged

`provider/privileged.rs`: the fixed scripts the Agent has `su` run, as far as `provider/process.rs`
uses them, and `run_privileged`.
-/

namespace RevBox.Privileged

/-- What comes of `su -c`: no answer in time, no `su` to run, or its exit and its output. -/
inductive SuReply where
  | timeout
  | unavailable (text : String)
  | exited (code : Option Int) (stdout stderr : List UInt8)

/-- `run_privileged` of a script with this reply; `expect` is the line the output must hold. -/
def runPrivileged (step expect : String) : SuReply → Except AgentError (List Char)
  | .timeout => .error (.new .deadlineExceeded s!"{step} 超时（su 授权未应答或卡住）")
  | .unavailable text =>
      .error ((AgentError.new .permissionDenied s!"{step} 无法执行 su: {text}").withDetails
        (reasonDetails "su_unavailable"))
  | .exited code stdout stderr =>
      let stdout := Text.trim (Utf8.fromUtf8Lossy stdout)
      let stderr := Text.trim (Utf8.fromUtf8Lossy stderr)
      if code ≠ some 0 then
        .error ((AgentError.new .permissionDenied
          s!"{step} 提权执行失败: {String.ofList (if stderr = [] then stdout else stderr)}").withDetails
          (.ofFields [("reason", .string "su_failed"),
            ("exit", (code.map fun n => Value.number (.int n)).getD .null)]))
      else if (Text.lines stdout).all fun line => Text.trim line ≠ expect.toList then
        .error ((AgentError.new .internal
          s!"{step} 未回 expected 哨兵 {expect}，实际: {String.ofList stdout}").withDetails
          (reasonDetails "sentinel_missing"))
      else .ok stdout

/-- `reject`. -/
def reject (reason message : String) : AgentError :=
  (AgentError.new .invalidRequest message).withDetails (reasonDetails reason)

/-- `KILL_SENTINEL`. -/
def killSentinel : String := "ARTKILL_DONE"

/-- `kill_verified_script`. -/
def killVerifiedScript (pid : Nat) (comm : String) : String :=
  s!"if [ ! -d /proc/{pid} ]; then echo KILL_GONE; echo {killSentinel}; exit 0; fi; " ++
  s!"C=$(cut -d \" \" -f2 /proc/{pid}/stat 2>/dev/null | tr -d \"()\"); " ++
  s!"if [ \"$C\" != \"{comm}\" ]; then echo \"KILL_MISMATCH $C\"; echo {killSentinel}; exit 0; fi; " ++
  s!"kill {pid} 2>/dev/null; attempt=0; " ++
  s!"while kill -0 {pid} 2>/dev/null && [ \"$attempt\" -lt 20 ]; " ++
  "do sleep 0.05; attempt=$((attempt + 1)); done; " ++
  s!"if kill -0 {pid} 2>/dev/null; then kill -9 {pid} 2>/dev/null; fi; " ++
  s!"attempt=0; while kill -0 {pid} 2>/dev/null && [ \"$attempt\" -lt 20 ]; " ++
  "do sleep 0.05; attempt=$((attempt + 1)); done; " ++
  s!"if kill -0 {pid} 2>/dev/null; then echo STILL_ALIVE; else echo KILLED; fi; echo {killSentinel}"

/-- `PROC_READ_SENTINEL`. -/
def procReadSentinel : String := "ARTPROC_END"

/-- `proc_read_script`. -/
def procReadScript (pid : Nat) (file : String) (maxLines maxBytes : Nat) : String :=
  let path := s!"/proc/{pid}/{file}"
  s!"if [ ! -d /proc/{pid} ]; then echo ARTPROC_TOTAL; echo ARTPROC_GONE; echo ARTPROC_END; " ++
  "exit 0; fi; " ++
  s!"if [ ! -e {path} ]; then echo ARTPROC_TOTAL; echo ARTPROC_MISSING; echo ARTPROC_END; " ++
  "exit 0; fi; " ++
  s!"echo ARTPROC_TOTAL; awk 'END\x7bprint NR\x7d' {path} 2>/dev/null || echo -1; " ++
  s!"echo ARTPROC_BODY; head -c {maxBytes} {path} 2>/dev/null | sed -n '1,{maxLines}p'; " ++
  "printf '\n'; echo ARTPROC_END"

/-- `validate_comm`. -/
def validateComm (comm : List Char) : Except AgentError Unit :=
  if comm = [] ∨ (Utf8.encode comm).length > 15 then
    .error (reject "comm_length" "进程名长度为 1..=15 字节")
  else if comm.all fun c => Text.isAsciiAlphanumeric c || c = '_' || c = '.' || c = '-' then .ok ()
  else .error (reject "comm_charset"
    s!"进程名含白名单外的字符: {Text.debugStr (String.ofList comm)}")

/-- `validate_binary_name`. -/
def validateBinaryName (name : String) : Except AgentError Unit :=
  if name ≠ "" ∧ name.utf8ByteSize ≤ 64 ∧ name.toList.head? ≠ some '.' ∧ '/' ∉ name.toList ∧
      name.toList.all (fun c =>
        Text.isAsciiAlphanumeric c || c = '_' || c = '.' || c = '-' || c = '+') then .ok ()
  else .error (reject "invalid_binary_name" s!"二进制名只能是字母数字与 _.-+，不含路径分隔: {name}")

/-- `validate_listen`. -/
def validateListen (addr : String) (port : UInt16) : Except AgentError Unit :=
  if addr ≠ "127.0.0.1" ∧ addr ≠ "0.0.0.0" then
    .error (reject "invalid_bind_address" s!"绑定地址只允许 127.0.0.1 或 0.0.0.0: {addr}")
  else if port < 1024 then .error (reject "privileged_port" s!"端口必须 ≥ 1024，收到 {port.toNat}")
  else .ok ()

/-- `START_LOG` of `provider/frida.rs`. -/
def startLog : String := "/data/local/tmp/frida-server.artool.log"

/-- `frida_start_script`. -/
def fridaStartScript (name addr : String) (port : UInt16) (log : String) : String :=
  s!"cd /data/local/tmp; : > {log}; chmod 666 {log}; " ++
  s!"test -x ./{name}; nohup setsid ./{name} -l {addr}:{port.toNat} > {log} 2>&1 & " ++
  "sleep 1; echo FRIDA_STARTED"

/-- `frida_stop_script`. -/
def fridaStopScript (name : String) : String :=
  s!"FOUND=0; DENIED=0; for P in $(pidof {name} 2>/dev/null); do FOUND=1; " ++
  "A=$(tr '\\0' ' ' < /proc/$P/cmdline 2>/dev/null | cut -d' ' -f1); A=$\x7bA##*/\x7d; " ++
  s!"if [ \"$A\" = \"{name}\" ]; then kill $P 2>/dev/null || DENIED=1; else DENIED=1; fi; " ++
  "done; if [ $FOUND = 0 ]; then echo FRIDA_NOT_RUNNING; " ++
  "elif [ $DENIED = 1 ]; then echo FRIDA_KILL_DENIED; else echo FRIDA_STOPPED; fi"

end RevBox.Privileged
