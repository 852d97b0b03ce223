import YarvUc.Rtl.Pkg
import YarvUc.Rtl.Expand
import YarvUc.Rtl.Decoder
import YarvUc.Rtl.NativeRam
import YarvUc.Rtl.Alu
import YarvUc.Rtl.BranchPredictor
import YarvUc.Rtl.Csr
import YarvUc.Rtl.Uart
import YarvUc.Rtl.DecodeStage
import YarvUc.Rtl.ExecuteStage
import YarvUc.Clocked.Run
import YarvUc.Clocked.Bits
import YarvUc.Clocked.Ring
import YarvUc.Fetch.Accounting
import YarvUc.Fetch.Delivery
import YarvUc.Decode.Slice
import YarvUc.Decode.Legal
import YarvUc.Decode.Predict
import YarvUc.Bus.Completion
import YarvUc.Bus.Strobes
import YarvUc.Execute.DataMemory
import YarvUc.Execute.Divider
import YarvUc.Execute.Ownership
import YarvUc.Uart.RoundTrip
import YarvUc.Rtl.Cpu
import YarvUc.Pipeline.Precise
import YarvUc.Pipeline.NoTrace
import YarvUc.Pipeline.Instret
import YarvUc.Pipeline.Sleep
import YarvUc.Pipeline.Aligned
import YarvUc.Sequential.Compressed
import YarvUc.Sequential.Refinement
import YarvUc.Sequential.Builds
import YarvUc.Uart.Transmit
import YarvUc.Uart.Receive
import YarvUc.Bus.Slaves
import YarvUc.Bus.InOrderMemory
import YarvUc.Pipeline.Predictor
import YarvUc.Pipeline.PushLookup
import YarvUc.Pipeline.Operands
import YarvUc.Isa.Start
import YarvUc.Sequential.Agreement
import YarvUc.Sequential.Attended
import YarvUc.Soc.Serial
import YarvUc.Soc.Progress
import YarvUc.Soc.Loads
import YarvUc.Isa.Turns
import YarvUc.Soc.Program
